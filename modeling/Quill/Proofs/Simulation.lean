/-
Module: Quill.Proofs.Simulation
Layer: Proofs
Purpose: Evaluation keeps every relation that its steps keep. A simulation is a relation between computations
  that holds of the primitive computations which do not print, each compared with itself, and that sequencing
  keeps. Each form of the language is taken once: if the evaluators of the parts and the ways to call values
  are related, so are the evaluations of the whole.
Main exports: Simulation, Simulation.operand, Simulation.evalBlock, Simulation.applyClosure,
  Simulation.evalForm
-/
import Quill.Proofs.Tree.Traversal
import Quill.Evaluation

namespace Quill

/-- A relation between computations that the steps of evaluation keep. -/
structure Simulation (R : (α : Type) → Eval α → Eval α → Prop) : Prop extends Sequential R where
  stop : ∀ {α : Type} (s : Stop), R α (Eval.stop s) (Eval.stop s)
  newScope : ∀ parent, R ScopeId (Eval.newScope parent) (Eval.newScope parent)
  lookup : ∀ scope name, R (Option Value) (Eval.lookup scope name) (Eval.lookup scope name)
  bindAt : ∀ place name binding, R Unit (Eval.bindAt place name binding) (Eval.bindAt place name binding)
  freshIdentity : R Nat Eval.freshIdentity Eval.freshIdentity

namespace Simulation

variable {R : (α : Type) → Eval α → Eval α → Prop} (simulation : Simulation R)

include simulation

theorem operand {part part' : Eval Value} {next next' : Value → Eval Value} (related : R Value part part')
    (goesOn : ∀ v, R Value (next v) (next' v)) : R Value (part.operand next) (part'.operand next') := by
  rw [Eval.operand_eq_bind, Eval.operand_eq_bind]
  refine simulation.bind related fun v => ?_
  cases v with
  | returned w => exact simulation.pure _
  | _ => exact goesOn _

theorem ofExcept {α : Type} (result : Except Fault α) :
    R α (Eval.ofExcept result) (Eval.ofExcept result) := by
  cases result with
  | ok a => exact simulation.pure a
  | error f => exact simulation.stop (.fault f)

theorem defineAll (scope : ScopeId) (pairs : List (String × Value)) :
    R Unit (Eval.defineAll scope pairs) (Eval.defineAll scope pairs) := by
  induction pairs with
  | nil => exact simulation.pure ()
  | cons pair rest inductionHypothesis =>
      exact simulation.bind (simulation.bindAt _ pair.1 _) fun _ => inductionHypothesis

/-!
### Statements
-/

section Forms

variable {ev ev' : Evaluator} (evaluates : ∀ e scope, R Value (ev e scope) (ev' e scope))

include evaluates

theorem evalStmt (scope : ScopeId) (s : Stmt) : R Value (evalStmt ev scope s) (evalStmt ev' scope s) := by
  cases s with
  | bind name value =>
      refine simulation.operand (evaluates value scope) fun v => ?_
      exact simulation.map (simulation.bindAt _ name _) _
  | bindConst name value =>
      refine simulation.operand (evaluates value scope) fun v => ?_
      exact simulation.map (simulation.bindAt _ name _) _
  | assign name value =>
      refine simulation.operand (evaluates value scope) fun v => ?_
      exact simulation.map (simulation.bindAt _ name _) _
  | ret value => exact simulation.operand (evaluates value scope) fun v => simulation.pure _
  | expr e => exact evaluates e scope

theorem evalBlock (scope : ScopeId) (body : Block) :
    R Value (evalBlock ev scope body) (evalBlock ev' scope body) := by
  induction body with
  | nil => exact simulation.pure Value.null
  | cons s rest inductionHypothesis =>
      cases rest with
      | nil => exact simulation.evalStmt evaluates scope s
      | cons next rest =>
          exact simulation.operand (simulation.evalStmt evaluates scope s) fun _ => inductionHypothesis

/-!
### Parts of expressions
-/

theorem evalOperands (scope : ScopeId) (es : List Expr) : ∀ {next next' : List Value → Eval Value},
    (∀ vs, R Value (next vs) (next' vs)) →
      R Value (evalOperands ev scope es next) (evalOperands ev' scope es next') := by
  induction es with
  | nil =>
      intro next next' goesOn
      exact goesOn []
  | cons e es inductionHypothesis =>
      intro next next' goesOn
      refine simulation.operand (evaluates e scope) fun v => ?_
      exact inductionHypothesis fun vs => goesOn (v :: vs)

theorem evalEntries (scope : ScopeId) (pairs : List (Expr × Expr)) : ∀ entries : List (Key × Value × Value),
    R Value (evalEntries ev scope entries pairs) (evalEntries ev' scope entries pairs) := by
  induction pairs with
  | nil =>
      intro entries
      exact simulation.pure (Value.hash entries)
  | cons pair rest inductionHypothesis =>
      intro entries
      refine simulation.operand (evaluates pair.1 scope) fun k => ?_
      cases k.key? with
      | none => exact simulation.stop _
      | some k' => exact simulation.operand (evaluates pair.2 scope) fun v => inductionHypothesis _

theorem evalClauses (scope : ScopeId) (chosen : Value → Bool) (otherwise : Option Block)
    (clauses : List (Expr × Block)) :
    R Value (evalClauses ev scope chosen otherwise clauses)
      (evalClauses ev' scope chosen otherwise clauses) := by
  induction clauses with
  | nil =>
      cases otherwise with
      | none => exact simulation.pure Value.null
      | some body => exact simulation.evalBlock evaluates scope body
  | cons clause rest inductionHypothesis =>
      refine simulation.operand (evaluates clause.1 scope) fun v => ?_
      cases chosen v with
      | true => exact simulation.evalBlock evaluates scope clause.2
      | false => exact inductionHypothesis

theorem evalBinary (scope : ScopeId) (op : BinaryOp) (left right : Expr) :
    R Value (evalBinary ev scope op left right) (evalBinary ev' scope op left right) := by
  refine simulation.operand (evaluates left scope) fun l => ?_
  split
  · exact simulation.pure _
  · exact simulation.pure _
  · exact simulation.operand (evaluates right scope) fun _ => simulation.pure _
  · exact simulation.operand (evaluates right scope) fun _ => simulation.pure _
  · exact simulation.operand (evaluates right scope) fun _ => simulation.ofExcept _

/-!
### Loops
-/

omit evaluates in
/-- The induction is on the rounds. -/
theorem repeatWhile {test test' round round' : Eval Value} (tests : R Value test test')
    (goes : R Value round round') (rounds : Nat) :
    R Value (repeatWhile test round rounds) (repeatWhile test' round' rounds) := by
  induction rounds with
  | zero => exact simulation.stop .exhausted
  | succ rounds inductionHypothesis =>
      refine simulation.operand tests fun v => ?_
      cases v.truthy with
      | true => exact simulation.operand goes fun _ => inductionHypothesis
      | false => exact simulation.pure Value.null

theorem evalInside (scope : ScopeId) (body : Block) :
    R Value (evalInside ev scope body) (evalInside ev' scope body) :=
  simulation.bind (simulation.newScope _) fun inner => simulation.evalBlock evaluates inner body

theorem evalFor (rounds : Nat) (scope : ScopeId) (start : Stmt) (condition : Expr) (step : Stmt)
    (body : Block) :
    R Value (evalFor ev rounds scope start condition step body)
      (evalFor ev' rounds scope start condition step body) := by
  refine simulation.bind (simulation.newScope _) fun around => ?_
  refine simulation.operand (simulation.evalStmt evaluates around start) fun _ => ?_
  refine simulation.repeatWhile (evaluates condition around) ?_ rounds
  exact simulation.operand (simulation.evalInside evaluates around body) fun _ =>
    simulation.evalStmt evaluates around step

/-!
### Calls
-/

theorem applyClosure (c : Closure) (args : List Value) :
    R Value (applyClosure ev c args) (applyClosure ev' c args) := by
  unfold Quill.applyClosure
  split
  · refine simulation.bind (simulation.newScope _) fun inner => ?_
    refine simulation.bind (simulation.defineAll inner _) fun _ => ?_
    exact simulation.map (simulation.evalBlock evaluates inner c.body) _
  · exact simulation.stop _

theorem quotation (scope : ScopeId) (e : Expr) :
    R Value (quotation (fun x => ev x scope) e) (quotation (fun x => ev' x scope) e) := by
  have splices : ∀ n, R Node (splice (fun x => ev x scope) n) (splice (fun x => ev' x scope) n) := by
    intro n
    unfold splice
    split
    · exact simulation.pure n
    · exact simulation.map (evaluates _ scope) _
    · exact simulation.stop _
  exact simulation.map (simulation.transform splices (.expr e)) _

theorem evalCall {call call' : Caller} (calls : ∀ f args, R Value (call f args) (call' f args))
    (scope : ScopeId) (callee : Expr) (args : List Expr) :
    R Value (evalCall ev call scope callee args) (evalCall ev' call' scope callee args) := by
  unfold Quill.evalCall
  split
  · unfold evalQuote
    split
    · exact simulation.quotation evaluates scope _
    · exact simulation.stop _
  · refine simulation.operand (evaluates callee scope) fun f => ?_
    exact simulation.evalOperands evaluates scope args fun vs => calls f vs

/-!
### Expressions
-/

omit evaluates in
theorem evalName (scope : ScopeId) (name : String) :
    R Value (evalName scope name) (evalName scope name) := by
  refine simulation.bind (simulation.lookup scope name) fun found => ?_
  cases found with
  | some v => exact simulation.pure v
  | none =>
      cases Builtin.ofName? name with
      | some b => exact simulation.pure (Value.builtin b)
      | none => exact simulation.stop _

/-- Every form of the language is related to itself under evaluators and calls that are related. -/
theorem evalForm {call call' : Caller} (calls : ∀ f args, R Value (call f args) (call' f args))
    (rounds : Nat) (scope : ScopeId) (e : Expr) :
    R Value (evalForm ev call rounds scope e) (evalForm ev' call' rounds scope e) := by
  cases e with
  | ident name => exact simulation.evalName scope name
  | integer n => exact simulation.pure _
  | float x => exact simulation.pure _
  | boolean b => exact simulation.pure _
  | text content => exact simulation.pure _
  | null => exact simulation.pure _
  | array items => exact simulation.evalOperands evaluates scope items fun vs => simulation.pure _
  | hash pairs => exact simulation.evalEntries evaluates scope pairs []
  | unary op operand => exact simulation.operand (evaluates operand scope) fun v => simulation.ofExcept _
  | binary op left right => exact simulation.evalBinary evaluates scope op left right
  | conditional clauses otherwise =>
      exact simulation.evalClauses evaluates scope Value.truthy otherwise clauses
  | switch subject cases otherwise =>
      refine simulation.operand (evaluates subject scope) fun v => ?_
      exact simulation.evalClauses evaluates scope _ otherwise cases
  | whileLoop condition body =>
      exact simulation.repeatWhile (evaluates condition scope) (simulation.evalInside evaluates scope body)
        rounds
  | forLoop start condition step body =>
      exact simulation.evalFor evaluates rounds scope start condition step body
  | function name params body => exact simulation.map simulation.freshIdentity _
  | call callee args => exact simulation.evalCall evaluates calls scope callee args
  | index subject key =>
      refine simulation.operand (evaluates subject scope) fun s => ?_
      exact simulation.operand (evaluates key scope) fun k => simulation.ofExcept _
  | macroLiteral params body => exact simulation.map simulation.freshIdentity _

end Forms

end Simulation

end Quill
