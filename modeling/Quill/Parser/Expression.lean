/-
Module: Quill.Parser.Expression
Layer: Parsing
Purpose: Reading expressions by precedence climbing. An expression is an operand, continued by operators,
  calls and indexing as long as these bind more tightly than the level asked for. Every reader here takes
  its sub-expressions from a reader that is handed in, and each use of that reader stands behind a token
  that has been read; `expression` ties the knot, with a depth that the number of tokens bounds.
Main exports: Parser.operand, Parser.continuation, Parser.extend, Parser.expression
-/
import Quill.Parser.Statement
import Quill.Decimal.Reader

namespace Quill

/-- The level at which a token continues an expression. -/
def Lexeme.level : Lexeme → Level
  | symbol s => s.level
  | _ => .lowest

namespace Parser

open Parse

/-- The entries of a hash, up to the closing brace. A comma may stand behind the last entry. -/
def hashEntries (sub : Sub) : (rounds : Nat) → Parse (List (Expr × Expr))
  | 0 => drop
  | rounds + 1 => do
    if ← peekIs (.symbol .rightCurly) then
      advance
      return []
    else
      advance
      let key ← sub.expression .lowest
      expectSymbol .colon
      advance
      let value ← sub.expression .lowest
      if !(← peekIs (.symbol .rightCurly)) then
        expectSymbol .comma
      let rest ← hashEntries sub rounds
      return (key, value) :: rest

/-- A condition and a block; the current token is the keyword in front of them. -/
def guardedBlock (sub : Sub) : Parse (Expr × Block) := do
  advance
  let guard ← sub.expression .lowest
  expectSymbol .leftCurly
  let body ← block sub
  return (guard, body)

/-- The `else if` clauses and the `else` block behind a conditional's first clause. -/
def elseClauses (sub : Sub) : (rounds : Nat) → Parse (List (Expr × Block) × Option Block)
  | 0 => drop
  | rounds + 1 => do
    if ← peekIs (.keyword .elseWord) then
      advance
      if ← peekIs (.keyword .ifWord) then
        advance
        let clause ← guardedBlock sub
        let (clauses, otherwise) ← elseClauses sub rounds
        return (clause :: clauses, otherwise)
      else
        expectSymbol .leftCurly
        let body ← block sub
        return ([], some body)
    else
      return ([], none)

/-- A conditional; the current token is `if`. -/
def conditional (sub : Sub) : Parse Expr := do
  let clause ← guardedBlock sub
  let (clauses, otherwise) ← elseClauses sub sub.rounds
  return .conditional (clause :: clauses) otherwise

/-- A while loop; the current token is `while`. -/
def whileLoop (sub : Sub) : Parse Expr := do
  let (condition, body) ← guardedBlock sub
  return .whileLoop condition body

/-- A for loop; the current token is `for`. -/
def forLoop (sub : Sub) : Parse Expr := do
  expectSymbol .leftParen
  advance
  let start ← simpleStatement sub
  expectSymbol .semicolon
  advance
  let condition ← sub.expression .lowest
  expectSymbol .semicolon
  advance
  let step ← simpleStatement sub
  expectSymbol .rightParen
  expectSymbol .leftCurly
  let body ← block sub
  return .forLoop start condition step body

/-- The tokens behind which the statements of a case end. -/
def closesCase (k : Kind) : Bool :=
  k = .keyword .caseWord || k = .keyword .defaultWord || k = .symbol .rightCurly

/-- The statements of a case, up to the next case, the default or the closing brace. -/
def caseBody (sub : Sub) : Parse Block := do
  expectSymbol .colon
  advance
  statementsUntil sub closesCase sub.rounds

/-- The cases of a switch and its default, which can only come last, up to the closing brace. -/
def switchCases (sub : Sub) : (rounds : Nat) → Parse (List (Expr × Block) × Option Block)
  | 0 => drop
  | rounds + 1 => do
    let token ← current
    match token.lexeme with
    | .keyword .caseWord =>
      advance
      let value ← sub.expression .lowest
      let body ← caseBody sub
      let (cases, otherwise) ← switchCases sub rounds
      return ((value, body) :: cases, otherwise)
    | .keyword .defaultWord =>
      let body ← caseBody sub
      let closing ← current
      if closing.hasKind (.symbol .rightCurly) then
        return ([], some body)
      else
        unexpected closing (.symbol .rightCurly)
    | .symbol .rightCurly => return ([], none)
    | _ => unexpected token (.keyword .caseWord)

/-- A switch; the current token is `switch`. -/
def switch (sub : Sub) : Parse Expr := do
  advance
  let subject ← sub.expression .lowest
  expectSymbol .leftCurly
  advance
  let (cases, otherwise) ← switchCases sub sub.rounds
  if cases.isEmpty then
    Parse.report (← current).position .missingCase
  else
    return .switch subject cases otherwise

/-- The parameters and the body of a function or macro literal; the current token is the keyword. -/
def paramsAndBody (sub : Sub) : Parse (List String × Block) := do
  expectSymbol .leftParen
  let params ← items identifier sub.rounds .rightParen
  expectSymbol .leftCurly
  let body ← block sub
  return (params, body)

/-- An operator in front of its operand; the current token is the operator. -/
def unary (sub : Sub) (op : UnaryOp) : Parse Expr := do
  advance
  let operand ← sub.expression .unary
  return .unary op operand

/-- An expression in parentheses; the current token is the opening one. -/
def parenthesised (sub : Sub) : Parse Expr := do
  advance
  let e ← sub.expression .lowest
  expectSymbol .rightParen
  return e

/-- What an expression can start with. Afterwards the current token is the operand's last one. -/
def operand (sub : Sub) : Parse Expr := do
  let token ← current
  match token.lexeme with
  | .identifier name => return .ident name
  | .integer digits =>
    match Decimal.readInteger? digits with
    | some n => return .integer n
    | none => Parse.report token.position (.integerLiteral digits)
  | .decimal digits =>
    match Decimal.readFloat? digits with
    | some x => return .float x
    | none => Parse.report token.position (.floatLiteral digits)
  | .quoted content => return .text content
  | .keyword .trueWord => return .boolean true
  | .keyword .falseWord => return .boolean false
  | .keyword .nullWord => return .null
  | .symbol .bang => unary sub .not
  | .symbol .minus => unary sub .negate
  | .symbol .leftParen => parenthesised sub
  | .symbol .leftBracket => do
    let elements ← items (sub.expression .lowest) sub.rounds .rightBracket
    return .array elements
  | .symbol .leftCurly => do
    let entries ← hashEntries sub sub.rounds
    return .hash entries
  | .keyword .ifWord => conditional sub
  | .keyword .switchWord => switch sub
  | .keyword .whileWord => whileLoop sub
  | .keyword .forWord => forLoop sub
  | .keyword .fnWord => do
    let (params, body) ← paramsAndBody sub
    return .function none params body
  | .keyword .macroWord => do
    let (params, body) ← paramsAndBody sub
    return .macroLiteral params body
  | .illegal text => Parse.report token.position (.illegal text)
  | found => Parse.report token.position (.noOperand found)

/-- What is wrong with a step behind an expression: only a name can be stepped, and only in a
    statement of its own. -/
def stepProblem (step : Symbol) : Expr → Problem
  | .ident name => .stepInExpression step name
  | target => .stepTarget step target

/-- An expression continued by the symbol that is the current token. -/
def continuation (sub : Sub) (left : Expr) (position : Position) : Symbol → Parse Expr
  | .leftParen => do
    let args ← items (sub.expression .lowest) sub.rounds .rightParen
    return .call left args
  | .leftBracket => do
    advance
    let key ← sub.expression .lowest
    expectSymbol .rightBracket
    return .index left key
  | s =>
    match s.step?, s.binary? with
    | some _, _ => Parse.report position (stepProblem s left)
    | none, some op => do
      advance
      let right ← sub.expression op.rightLevel
      return .binary op left right
    | none, none => drop

/-- Continues an expression as long as what follows binds more tightly than the level. -/
def extend (sub : Sub) (level : Level) : (rounds : Nat) → Expr → Parse Expr
  | 0, _ => drop
  | rounds + 1, left => do
    let next ← peek
    if level.looser next.lexeme.level then
      advance
      match next.lexeme with
      | .symbol s =>
        let longer ← continuation sub left next.position s
        extend sub level rounds longer
      | _ => drop
    else
      return left

/-- An expression of operators that bind more tightly than `level`. Expressions inside it are read
    with one less in `depth`. -/
def expression (rounds : Nat) : (depth : Nat) → Level → Parse Expr
  | 0, _ => drop
  | depth + 1, level => do
    let sub : Sub := ⟨expression rounds depth, rounds⟩
    let left ← operand sub
    extend sub level rounds left

end Parser

end Quill
