/-
Module: Quill.Parser.Statement
Layer: Parsing
Purpose: Reading statements and blocks, given a reader of expressions. The reader of expressions is an
  argument because expressions contain blocks: the next module closes the circle.
Main exports: Parser.Sub, Parser.simpleStatement, Parser.statement, Parser.statementsUntil, Parser.block
-/
import Quill.Parser.Cursor

namespace Quill

/-- A function literal takes the name that it is bound or assigned to, unless it has one. -/
def Expr.named (name : String) : Expr → Expr
  | .function none params body => .function (some name) params body
  | e => e

namespace Parser

open Parse

/-- What a construct uses to read its parts: expressions that bind more tightly than a level, and a
    bound on the rounds of any list. -/
structure Sub where
  expression : Level → Parse Expr
  rounds : Nat

/-- `let name = value` or `const name = value`; the current token is the keyword. -/
def binding (sub : Sub) (make : String → Expr → Stmt) : Parse Stmt := do
  expect .identifier
  let name ← identifier
  expectSymbol .assign
  advance
  let value ← sub.expression .lowest
  return make name (value.named name)

/-- `return` with or without a value; without one it returns null. -/
def returning (sub : Sub) : Parse Stmt := do
  let next ← peek
  if next.hasKind (.symbol .semicolon) || next.hasKind (.symbol .rightCurly) ||
      next.hasKind .endOfText then
    return .ret .null
  else
    advance
    let value ← sub.expression .lowest
    return .ret value

/-- `name = value`; the current token is the name. -/
def assignment (sub : Sub) (name : String) : Parse Stmt := do
  advance
  advance
  let value ← sub.expression .lowest
  return .assign name (value.named name)

/-- `name op= value` assigns `name op value`; the current token is the name. -/
def compoundAssignment (sub : Sub) (name : String) (op : BinaryOp) : Parse Stmt := do
  advance
  advance
  let value ← sub.expression .lowest
  return .assign name (.binary op (.ident name) value)

/-- `name++` and `name--` assign the name's value plus or minus one. -/
def stepping (name : String) (op : BinaryOp) : Parse Stmt := do
  advance
  return .assign name (.binary op (.ident name) (.integer 1))

/-- An expression that stands as a statement. -/
def expressionStatement (sub : Sub) : Parse Stmt := do
  let e ← sub.expression .lowest
  return .expr e

/-- A statement that starts with a name: what kind it is shows in the token behind the name. -/
def namedStatement (sub : Sub) (name : String) : Parse Stmt := do
  match (← peek).lexeme with
  | .symbol .assign => assignment sub name
  | .symbol s =>
    match s.compound?, s.step? with
    | some op, _ => compoundAssignment sub name op
    | none, some op => stepping name op
    | none, none => expressionStatement sub
  | _ => expressionStatement sub

/-- A statement without its semicolon. -/
def simpleStatement (sub : Sub) : Parse Stmt := do
  match (← current).lexeme with
  | .keyword .letWord => binding sub .bind
  | .keyword .constWord => binding sub .bindConst
  | .keyword .returnWord => returning sub
  | .identifier name => namedStatement sub name
  | _ => expressionStatement sub

/-- A statement with its semicolon, if it has one. A lone semicolon is an empty statement, and a
    statement with a fault in it is left out. -/
def statement (sub : Sub) : Parse (Option Stmt) := do
  if ← currentIs (.symbol .semicolon) then
    return none
  else
    let s ← tolerate (simpleStatement sub)
    if ← peekIs (.symbol .semicolon) then
      advance
    return s

/-- The statements up to a token that closes them, which becomes the current one. A text that ends
    before lacks a closing brace. -/
def statementsUntil (sub : Sub) (closes : Kind → Bool) : (rounds : Nat) → Parse (List Stmt)
  | 0 => drop
  | rounds + 1 => do
    let token ← current
    if closes token.lexeme.kind then
      return []
    else if token.hasKind .endOfText then
      unexpected token (.symbol .rightCurly)
    else
      let first ← statement sub
      advance
      let rest ← statementsUntil sub closes rounds
      return first.toList ++ rest

/-- A block; the current token is its opening brace. -/
def block (sub : Sub) : Parse Block := do
  advance
  statementsUntil sub (· = .symbol .rightCurly) sub.rounds

end Parser

end Quill
