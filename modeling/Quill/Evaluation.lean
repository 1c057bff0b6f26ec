/-
Module: Quill.Evaluation
Layer: Running
Purpose: Running programs. Each form of the language is described by a function that is told how its parts
  are evaluated; `evalExpr` ties the knot. Programs may run forever, so `evalExpr` takes a bound on how
  deep evaluations nest and how many rounds a loop has. A pending return travels outward as a value: every
  form that meets one in a part that it needs yields it at once, and only calls and programs take its
  content.
Main exports: Evaluator, Caller, evalStmt, evalBlock, evalClauses, repeatWhile, applyValue, evalForm,
  evalExpr, evalProgramBy, evalProgram
-/
import Quill.Operation
import Quill.Builtin
import Quill.Quotation

namespace Quill

/-- A way to evaluate expressions in a scope. -/
abbrev Evaluator := Expr → ScopeId → Eval Value

/-- A way to call values. -/
abbrev Caller := Value → List Value → Eval Value

/-!
### Statements
-/

/-- Runs a statement. Statements that bind or assign yield null. -/
def evalStmt (ev : Evaluator) (scope : ScopeId) : Stmt → Eval Value
  | .bind name value =>
    (ev value scope).operand fun v => do
      Eval.define scope name v
      return .null
  | .bindConst name value =>
    (ev value scope).operand fun v => do
      Eval.defineConst scope name v
      return .null
  | .assign name value =>
    (ev value scope).operand fun v => do
      Eval.assign scope name v
      return .null
  | .ret value =>
    (ev value scope).operand fun v => return .returned v
  | .expr e => ev e scope

/-- Runs statements in a scope, up to the first that returns. The last value is that of the block. -/
def evalBlock (ev : Evaluator) (scope : ScopeId) : Block → Eval Value
  | [] => return .null
  | [s] => evalStmt ev scope s
  | s :: next :: rest => (evalStmt ev scope s).operand fun _ => evalBlock ev scope (next :: rest)

/-!
### Parts of expressions
-/

/-- Evaluates expressions from left to right and goes on with their values. -/
def evalOperands (ev : Evaluator) (scope : ScopeId) :
    List Expr → (List Value → Eval Value) → Eval Value
  | [], next => next []
  | e :: es, next =>
    (ev e scope).operand fun v => evalOperands ev scope es fun vs => next (v :: vs)

/-- Evaluates the entries of a hash from left to right. A key that cannot be one is met before its value
    is evaluated; a key that comes again gets the later value. -/
def evalEntries (ev : Evaluator) (scope : ScopeId) (entries : List (Key × Value × Value)) :
    List (Expr × Expr) → Eval Value
  | [] => return .hash entries
  | (key, value) :: rest =>
    (ev key scope).operand fun k =>
      match k.key? with
      | none => Eval.fault (.unusableKey k.kind)
      | some k' =>
        (ev value scope).operand fun v => evalEntries ev scope (Assoc.set k' (k, v) entries) rest

/-- Runs the first block whose guard has a chosen value, or else the block for the other cases. -/
def evalClauses (ev : Evaluator) (scope : ScopeId) (chosen : Value → Bool) (otherwise : Option Block) :
    List (Expr × Block) → Eval Value
  | [] =>
    match otherwise with
    | some body => evalBlock ev scope body
    | none => return .null
  | (guard, body) :: rest =>
    (ev guard scope).operand fun v =>
      if chosen v then evalBlock ev scope body else evalClauses ev scope chosen otherwise rest

/-- Applies a binary operator to expressions. The second operand of `&&` and `||` is evaluated only if
    the first one does not decide. -/
def evalBinary (ev : Evaluator) (scope : ScopeId) (op : BinaryOp) (left right : Expr) : Eval Value :=
  (ev left scope).operand fun l =>
    match op, l.truthy with
    | .and, false => return .boolean false
    | .or, true => return .boolean true
    | .and, true | .or, false =>
      (ev right scope).operand fun r => return .boolean r.truthy
    | _, _ =>
      (ev right scope).operand fun r => Eval.ofExcept (Operation.binary op l r)

/-!
### Loops
-/

/-- Rounds of a loop for as long as the test is true, at most as many as given. -/
def repeatWhile (test round : Eval Value) : (rounds : Nat) → Machine → Except Stop Value × Machine
  | 0, m => Eval.exhausted m
  | rounds + 1, m =>
    Eval.operand test (fun v =>
      if v.truthy then Eval.operand round fun _ => repeatWhile test round rounds
      else return .null) m

/-- Runs a block in a new scope of its own. -/
def evalInside (ev : Evaluator) (scope : ScopeId) (body : Block) : Eval Value := do
  let inner ← Eval.newScope (some scope)
  evalBlock ev inner body

/-- Runs a loop with a condition only. -/
def evalWhile (ev : Evaluator) (rounds : Nat) (scope : ScopeId) (condition : Expr) (body : Block) :
    Eval Value :=
  repeatWhile (ev condition scope) (evalInside ev scope body) rounds

/-- Runs a loop with a start and a step, which share a scope around the scopes of the rounds. -/
def evalFor (ev : Evaluator) (rounds : Nat) (scope : ScopeId)
    (start : Stmt) (condition : Expr) (step : Stmt) (body : Block) : Eval Value := do
  let around ← Eval.newScope (some scope)
  (evalStmt ev around start).operand fun _ =>
    repeatWhile (ev condition around)
      ((evalInside ev around body).operand fun _ => evalStmt ev around step) rounds

/-!
### Calls
-/

/-- Calls a function: its parameters are bound in a new scope inside the one it was made in. -/
def applyClosure (ev : Evaluator) (c : Closure) (args : List Value) : Eval Value :=
  if args.length = c.params.length then do
    let inner ← Eval.newScope (some c.scope)
    Eval.defineAll inner (c.params.zip args)
    let v ← evalBlock ev inner c.body
    return v.content
  else
    Eval.fault (.arity c.calledName c.params.length args.length)

/-- Calls a value. -/
def applyValue (ev : Evaluator) (callee : Value) (args : List Value) : Eval Value :=
  match callee with
  | .function c => applyClosure ev c args
  | .builtin b => b.call args
  | other => Eval.fault (.notCallable other.kind)

/-- A call that asks for a quotation takes one argument, which is not evaluated. -/
def evalQuote (ev : Evaluator) (scope : ScopeId) : List Expr → Eval Value
  | [e] => quotation (fun x => ev x scope) e
  | args => Eval.fault (.arity quoteName 1 args.length)

/-- Whether an expression is the name that asks for a quotation. Its meaning cannot be changed. -/
def Expr.asksQuote : Expr → Bool
  | ident name => name = quoteName
  | _ => false

/-- Runs a call: first the callee, then the arguments from left to right. -/
def evalCall (ev : Evaluator) (call : Caller) (scope : ScopeId) (callee : Expr) (args : List Expr) :
    Eval Value :=
  if callee.asksQuote then
    evalQuote ev scope args
  else
    (ev callee scope).operand fun f =>
      evalOperands ev scope args fun vs => call f vs

/-!
### Expressions and programs
-/

/-- The value of a name: the nearest binding, or else a builtin. -/
def evalName (scope : ScopeId) (name : String) : Eval Value := do
  match ← Eval.lookup scope name with
  | some v => return v
  | none =>
    match Builtin.ofName? name with
    | some b => return .builtin b
    | none => Eval.fault (.unbound name)

/-- Evaluates an expression, given how its parts are evaluated, how values are called and how many rounds
    a loop may have. -/
def evalForm (ev : Evaluator) (call : Caller) (rounds : Nat) (scope : ScopeId) : Expr → Eval Value
  | .ident name => evalName scope name
  | .integer n => return .integer n
  | .float x => return .float x
  | .boolean b => return .boolean b
  | .text content => return .text content
  | .null => return .null
  | .array items => evalOperands ev scope items fun vs => return .array vs
  | .hash pairs => evalEntries ev scope [] pairs
  | .unary op operand =>
    (ev operand scope).operand fun v => Eval.ofExcept (Operation.unary op v)
  | .binary op left right => evalBinary ev scope op left right
  | .conditional clauses otherwise => evalClauses ev scope Value.truthy otherwise clauses
  | .switch subject cases otherwise =>
    (ev subject scope).operand fun v => evalClauses ev scope (fun w => w.same v) otherwise cases
  | .whileLoop condition body => evalWhile ev rounds scope condition body
  | .forLoop start condition step body => evalFor ev rounds scope start condition step body
  | .function name params body => do
    let identity ← Eval.freshIdentity
    return .function ⟨name, params, body, scope, identity⟩
  | .call callee args => evalCall ev call scope callee args
  | .index subject key =>
    (ev subject scope).operand fun s =>
      (ev key scope).operand fun k => Eval.ofExcept (Operation.index s k)
  | .macroLiteral params body => do
    let identity ← Eval.freshIdentity
    return .macroValue ⟨params, body, scope, identity⟩

/-- Evaluates an expression with at most `bound` evaluations inside each other and as many rounds in each
    loop. -/
def evalExpr : (bound : Nat) → Evaluator
  | 0, _, _ => Eval.exhausted
  | bound + 1, e, scope => evalForm (evalExpr bound) (applyValue (evalExpr bound)) bound scope e

/-- Runs a program in a scope, given how expressions are evaluated. A fault is the value of the program
    that failed; a return ends it. -/
def evalProgramBy (ev : Evaluator) (p : Program) (scope : ScopeId) : Eval Value :=
  fun m =>
    match evalBlock ev scope p.statements m with
    | (.ok v, m') => (.ok v.content, m')
    | (.error (.fault f), m') => (.ok (.error f), m')
    | (.error stop, m') => (.error stop, m')

/-- Runs a program in a scope. -/
def evalProgram (bound : Nat) : Program → ScopeId → Eval Value :=
  evalProgramBy (evalExpr bound)

/-- Calls a value from outside of any program. -/
def callValue (bound : Nat) (callee : Value) (args : List Value) : Eval Value :=
  applyValue (evalExpr bound) callee args

end Quill
