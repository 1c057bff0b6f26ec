/-
Module: Quill.Proofs.EarlyExit
Layer: Proofs
Purpose: Stops and pending returns leave every form at once. A form is evaluated part by part. `Awaits` says which part
  a form comes to, and in which machine, once the parts before it have had ordinary values. If that part ends with a
  stop or with a pending return, the form ends in the same way and in the same machine. This holds for any way to
  evaluate parts and to call values, so that nothing can have been evaluated, called, bound or printed behind the part.
  Stops also leave quotations and expansions, where a fault is reported on behalf of the macro.
Main exports: Value.Ordinary, Early, Task, Passes, Awaits, LeavesAtOnce, early_end_leaves_at_once
-/
import Quill.Expansion
import Quill.Proofs.Tree.Walk

namespace Quill

/-!
### Ordinary values and early ends
-/

/-- A value that is no pending return. -/
def Value.Ordinary (v : Value) : Prop :=
  ∀ w, v ≠ .returned w

/-- How an evaluation ends that is not to be gone on with. -/
inductive Early : Except Stop Value → Prop where
  | stopped (s : Stop) : Early (.error s)
  | returning (v : Value) : Early (.ok (.returned v))

section Operands

variable {part : Eval Value} {next : Value → Eval Value} {m m' : Machine}

theorem Eval.operand_of_early {result : Except Stop Value} (run : part m = (result, m')) (early : Early result) :
    part.operand next m = (result, m') := by
  cases early <;> simp only [Eval.operand, run]

theorem Eval.operand_of_ordinary {v : Value} (run : part m = (.ok v, m')) (ordinary : v.Ordinary) :
    part.operand next m = next v m' := by
  cases v with
  | returned w => exact absurd rfl (ordinary w)
  | _ => simp only [Eval.operand, run]

end Operands

/-!
### Parts in turn
-/

/-- Parts that are evaluated one after another, from one machine to another, each to an ordinary value. -/
inductive Passes : List (Eval Value) → Machine → List Value → Machine → Prop where
  | nil {m : Machine} : Passes [] m [] m
  | cons {part : Eval Value} {parts : List (Eval Value)} {v : Value} {vs : List Value} {m m₁ m' : Machine}
      (run : part m = (.ok v, m₁)) (ordinary : v.Ordinary) (rest : Passes parts m₁ vs m') :
      Passes (part :: parts) m (v :: vs) m'

/-- Parts one after another, up to the first that returns. The last one gives the value. -/
def inTurn : List (Eval Value) → Eval Value
  | [] => return .null
  | [part] => part
  | part :: next :: rest => part.operand fun _ => inTurn (next :: rest)

theorem evalBlock_eq_inTurn (ev : Evaluator) (scope : ScopeId) (b : Block) :
    evalBlock ev scope b = inTurn (b.map (evalStmt ev scope)) := by
  fun_induction evalBlock ev scope b with
  | case1 => rfl
  | case2 s => rfl
  | case3 s next rest inductionHypothesis => simp only [inductionHypothesis, List.map_cons, inTurn]

section InTurn

variable {part : Eval Value} {before after parts : List (Eval Value)} {vs : List Value} {m m' : Machine}

theorem inTurn_of_early {result : Except Stop Value} (run : part m = (result, m')) (early : Early result) :
    inTurn (part :: after) m = (result, m') := by
  cases after with
  | nil => exact run
  | cons next rest => exact Eval.operand_of_early run early

theorem inTurn_of_passes (passes : Passes before m vs m') :
    inTurn (before ++ part :: after) m = inTurn (part :: after) m' := by
  induction passes with
  | nil => rfl
  | @cons first others v vs m m₁ m' run ordinary rest inductionHypothesis =>
      cases others with
      | nil =>
          cases rest
          exact Eval.operand_of_ordinary run ordinary
      | cons second others => exact (Eval.operand_of_ordinary run ordinary).trans inductionHypothesis

/-- Parts that all have ordinary values end with one. -/
theorem Passes.last (passes : Passes (part :: parts) m vs m') :
    ∃ v, inTurn (part :: parts) m = (.ok v, m') ∧ v.Ordinary := by
  induction parts generalizing part m vs with
  | nil =>
      cases passes with
      | cons run ordinary rest =>
          cases rest
          exact ⟨_, run, ordinary⟩
  | cons next rest inductionHypothesis =>
      cases passes with
      | cons run ordinary others =>
          obtain ⟨v, ends, isOrdinary⟩ := inductionHypothesis others
          exact ⟨v, (Eval.operand_of_ordinary run ordinary).trans ends, isOrdinary⟩

end InTurn

/-!
### Operands

Most expressions evaluate their operands, from left to right, before they do anything with their values.
-/

/-- The operators that may leave their second operand alone. -/
def BinaryOp.isLazy (op : BinaryOp) : Bool :=
  op = .and || op = .or

/-- Whether the value of the first operand is enough. -/
def BinaryOp.decidedBy : BinaryOp → Value → Bool
  | and, v => !v.truthy
  | or, v => v.truthy
  | _, _ => false

/-- The parts of an expression that are evaluated in any case, in their order. -/
def Expr.operands : Expr → List Expr
  | array items => items
  | unary _ operand => [operand]
  | binary op left right => if op.isLazy then [left] else [left, right]
  | switch subject _ _ => [subject]
  | call callee args => if callee.asksQuote then [] else callee :: args
  | index subject key => [subject, key]
  | _ => []

section Forms

variable {ev : Evaluator} {scope : ScopeId} {m m' m'' : Machine} {result : Except Stop Value}

theorem evalBinary_of_lazy {op : BinaryOp} (isLazy : op.isLazy = true) (left right : Expr) :
    evalBinary ev scope op left right =
      evalOperands ev scope [left] fun vs =>
        if op.decidedBy (vs.headD .null) then return .boolean (vs.headD .null).truthy
        else (ev right scope).operand fun r => return .boolean r.truthy := by
  show Eval.operand _ _ = Eval.operand _ _
  congr 1
  funext l
  show _ = if op.decidedBy l then _ else _
  cases op with
  | and => cases truth : l.truthy <;> simp [BinaryOp.decidedBy, truth]
  | or => cases truth : l.truthy <;> simp [BinaryOp.decidedBy, truth]
  | _ => simp [BinaryOp.isLazy] at isLazy

theorem evalBinary_of_strict {op : BinaryOp} (isStrict : op.isLazy = false) (left right : Expr) :
    evalBinary ev scope op left right =
      evalOperands ev scope [left, right] fun vs =>
        Eval.ofExcept (Operation.binary op (vs.headD .null) (vs.tail.headD .null)) := by
  unfold evalBinary
  cases op with
  | and => simp [BinaryOp.isLazy] at isStrict
  | or => simp [BinaryOp.isLazy] at isStrict
  | _ => rfl

theorem evalForm_eq_evalOperands (ev : Evaluator) (call : Caller) (rounds : Nat) (scope : ScopeId) (e : Expr) :
    ∃ next, evalForm ev call rounds scope e = evalOperands ev scope e.operands next := by
  -- an expression without operands goes on with itself
  have bare : e.operands = [] → ∃ next, evalForm ev call rounds scope e = evalOperands ev scope e.operands next :=
    fun none => ⟨fun _ => evalForm ev call rounds scope e, by rw [none]; rfl⟩
  cases e with
  | array items => exact ⟨_, rfl⟩
  | unary op operand => exact ⟨fun vs => Eval.ofExcept (Operation.unary op (vs.headD .null)), rfl⟩
  | binary op left right =>
      rw [Expr.operands]
      split
      case isTrue isLazy => exact ⟨_, evalBinary_of_lazy isLazy left right⟩
      case isFalse isStrict => exact ⟨_, evalBinary_of_strict (Bool.eq_false_iff.2 isStrict) left right⟩
  | switch subject cases otherwise =>
      exact ⟨fun vs => evalClauses ev scope (fun w => w.same (vs.headD .null)) otherwise cases, rfl⟩
  | call callee args =>
      rw [Expr.operands, evalForm, evalCall]
      split
      · exact ⟨fun _ => evalQuote ev scope args, rfl⟩
      · exact ⟨fun vs => call (vs.headD .null) vs.tail, rfl⟩
  | index subject key =>
      exact ⟨fun vs => Eval.ofExcept (Operation.index (vs.headD .null) (vs.tail.headD .null)), rfl⟩
  | _ => exact bare rfl

section Operands

variable {before after es : List Expr} {e : Expr} {next : List Value → Eval Value} {vs : List Value}

theorem evalOperands_of_passes (passes : Passes (before.map (ev · scope)) m vs m') :
    evalOperands ev scope (before ++ es) next m = evalOperands ev scope es (fun ws => next (vs ++ ws)) m' := by
  induction before generalizing next m vs with
  | nil =>
      cases passes
      rfl
  | cons first rest inductionHypothesis =>
      cases passes with
      | cons run ordinary others =>
          exact (Eval.operand_of_ordinary run ordinary).trans (inductionHypothesis others)

theorem evalOperands_of_early (passes : Passes (before.map (ev · scope)) m vs m')
    (run : ev e scope m' = (result, m'')) (early : Early result) :
    evalOperands ev scope (before ++ e :: after) next m = (result, m'') :=
  (evalOperands_of_passes passes).trans (Eval.operand_of_early run early)

theorem evalForm_of_strict {call : Caller} {rounds : Nat} {op : BinaryOp} (isStrict : op.isLazy = false)
    {left right : Expr} {v w : Value} (passes : Passes [ev left scope, ev right scope] m [v, w] m') :
    evalForm ev call rounds scope (.binary op left right) m = Eval.ofExcept (Operation.binary op v w) m' := by
  have asOperands : evalForm ev call rounds scope (.binary op left right) = _ :=
    evalBinary_of_strict isStrict left right
  have operandsPass : Passes ([left, right].map (ev · scope)) m [v, w] m' := passes
  rw [asOperands]
  exact evalOperands_of_passes operandsPass

end Operands

/-!
### Entries of hashes
-/

/-- Entries whose keys and values are evaluated one after another to ordinary values, the keys to usable ones. -/
inductive PassesEntries (ev : Evaluator) (scope : ScopeId) : List (Expr × Expr) → Machine → Machine → Prop where
  | nil {m : Machine} : PassesEntries ev scope [] m m
  | cons {key value : Expr} {k v : Value} {k' : Key} {rest : List (Expr × Expr)} {m m₁ m₂ m' : Machine}
      (keyRun : ev key scope m = (.ok k, m₁)) (keyOrdinary : k.Ordinary) (usable : k.key? = some k')
      (valueRun : ev value scope m₁ = (.ok v, m₂)) (valueOrdinary : v.Ordinary)
      (others : PassesEntries ev scope rest m₂ m') :
      PassesEntries ev scope ((key, value) :: rest) m m'

theorem evalEntries_of_passes {before pairs : List (Expr × Expr)} (passes : PassesEntries ev scope before m m') :
    ∀ entries, ∃ entries', evalEntries ev scope entries (before ++ pairs) m = evalEntries ev scope entries' pairs m' := by
  induction passes with
  | nil => exact fun entries => ⟨entries, rfl⟩
  | @cons key value k v k' rest m m₁ m₂ m' keyRun keyOrdinary usable valueRun valueOrdinary _ inductionHypothesis =>
      intro entries
      obtain ⟨entries', goesOn⟩ := inductionHypothesis (Assoc.set k' (k, v) entries)
      refine ⟨entries', Eq.trans ?_ goesOn⟩
      rw [List.cons_append, evalEntries, Eval.operand_of_ordinary keyRun keyOrdinary]
      simp only [usable]
      exact Eval.operand_of_ordinary valueRun valueOrdinary

/-!
### Clauses
-/

/-- Guards that are evaluated one after another to ordinary values, none of them a chosen one. -/
inductive Skips (ev : Evaluator) (scope : ScopeId) (chosen : Value → Bool) :
    List (Expr × Block) → Machine → Machine → Prop where
  | nil {m : Machine} : Skips ev scope chosen [] m m
  | cons {guard : Expr} {body : Block} {v : Value} {rest : List (Expr × Block)} {m m₁ m' : Machine}
      (run : ev guard scope m = (.ok v, m₁)) (ordinary : v.Ordinary) (skipped : chosen v = false)
      (others : Skips ev scope chosen rest m₁ m') :
      Skips ev scope chosen ((guard, body) :: rest) m m'

theorem evalClauses_of_skips {chosen : Value → Bool} {otherwise : Option Block} {before clauses : List (Expr × Block)}
    (skips : Skips ev scope chosen before m m') :
    evalClauses ev scope chosen otherwise (before ++ clauses) m = evalClauses ev scope chosen otherwise clauses m' := by
  induction skips with
  | nil => rfl
  | @cons guard body v rest m m₁ m' run ordinary skipped _ inductionHypothesis =>
      rw [List.cons_append, evalClauses, Eval.operand_of_ordinary run ordinary, skipped]
      exact inductionHypothesis

/-!
### Rounds of loops
-/

/-- Full rounds of a loop: each time the test has an ordinary value that is true, and then the parts of the round have
    ordinary values. -/
inductive Rounds (test : Eval Value) (round : List (Eval Value)) : Nat → Machine → Machine → Prop where
  | none {m : Machine} : Rounds test round 0 m m
  | more {k : Nat} {v : Value} {vs : List Value} {m m₁ m₂ m' : Machine}
      (run : test m = (.ok v, m₁)) (ordinary : v.Ordinary) (isTrue : v.truthy = true)
      (passes : Passes round m₁ vs m₂) (others : Rounds test round k m₂ m') :
      Rounds test round (k + 1) m m'

/-- After some full rounds the test has held once more, so that another round begins. -/
inductive Enters (test : Eval Value) (round : List (Eval Value)) (rounds : Nat) : Machine → Machine → Prop where
  | intro {k : Nat} {v : Value} {m m₁ m' : Machine} (within : k < rounds) (full : Rounds test round k m m₁)
      (run : test m₁ = (.ok v, m')) (ordinary : v.Ordinary) (isTrue : v.truthy = true) :
      Enters test round rounds m m'

section Loops

variable {test part : Eval Value} {parts : List (Eval Value)}

/-- A test that holds is followed by the round. -/
theorem repeatWhile_of_true {v : Value} {round : Eval Value} (run : test m = (.ok v, m')) (ordinary : v.Ordinary)
    (isTrue : v.truthy = true) (rounds : Nat) :
    repeatWhile test round (rounds + 1) m = round.operand (fun _ => repeatWhile test round rounds) m' := by
  rw [repeatWhile, Eval.operand_of_ordinary run ordinary, if_pos isTrue]

theorem repeatWhile_of_rounds {k : Nat} (full : Rounds test (part :: parts) k m m') (rounds : Nat) :
    repeatWhile test (inTurn (part :: parts)) (rounds + k) m = repeatWhile test (inTurn (part :: parts)) rounds m' := by
  induction full with
  | none => rfl
  | @more k v vs m m₁ m₂ m' run ordinary isTrue passes _ inductionHypothesis =>
      obtain ⟨w, ends, isOrdinary⟩ := passes.last
      rw [← Nat.add_assoc, repeatWhile_of_true run ordinary isTrue]
      exact (Eval.operand_of_ordinary ends isOrdinary).trans inductionHypothesis

theorem repeatWhile_of_test {k rounds : Nat} (within : k < rounds) (full : Rounds test (part :: parts) k m m')
    (run : test m' = (result, m'')) (early : Early result) :
    repeatWhile test (inTurn (part :: parts)) rounds m = (result, m'') := by
  obtain ⟨left, rfl⟩ : ∃ left, rounds = left + 1 + k := ⟨rounds - k - 1, by omega⟩
  exact (repeatWhile_of_rounds full (left + 1)).trans (Eval.operand_of_early run early)

theorem repeatWhile_of_round {rounds : Nat} (entered : Enters test (part :: parts) rounds m m')
    (run : inTurn (part :: parts) m' = (result, m'')) (early : Early result) :
    repeatWhile test (inTurn (part :: parts)) rounds m = (result, m'') := by
  obtain @⟨k, v, m, m₁, m', within, full, holds, ordinary, isTrue⟩ := entered
  obtain ⟨left, rfl⟩ : ∃ left, rounds = left + 1 + k := ⟨rounds - k - 1, by omega⟩
  rw [repeatWhile_of_rounds full (left + 1), repeatWhile_of_true holds ordinary isTrue]
  exact Eval.operand_of_early run early

end Loops

end Forms

/-!
### The part that is waited for
-/

/-- Something to evaluate in a scope. -/
inductive Task where
  | expr (e : Expr) (scope : ScopeId)
  | stmt (s : Stmt) (scope : ScopeId)
  | block (b : Block) (scope : ScopeId)

namespace Task

/-- A task as a part of another one, given how expressions are evaluated. -/
def run (ev : Evaluator) : Task → Eval Value
  | expr e scope => ev e scope
  | stmt s scope => evalStmt ev scope s
  | block b scope => evalBlock ev scope b

/-- A task as a whole, given how its parts are evaluated, how values are called and how many rounds a loop may have.
    An expression is evaluated so by `evalExpr (bound + 1)`, its parts by `evalExpr bound`. -/
def evaluate (ev : Evaluator) (call : Caller) (rounds : Nat) : Task → Eval Value
  | expr e scope => evalForm ev call rounds scope e
  | stmt s scope => evalStmt ev scope s
  | block b scope => evalBlock ev scope b

end Task

/-- The expression of a statement. -/
def Stmt.value : Stmt → Expr
  | bind _ value => value
  | bindConst _ value => value
  | assign _ value => value
  | ret value => value
  | expr e => e

/-- The part that guarded blocks come to: a guard, the block of a chosen guard, or the block for the other cases. -/
inductive AwaitsClause (ev : Evaluator) (scope : ScopeId) (chosen : Value → Bool) (otherwise : Option Block) :
    List (Expr × Block) → Machine → Task → Machine → Prop where
  | guard {guard : Expr} {body : Block} {before after : List (Expr × Block)} {m m' : Machine}
      (skips : Skips ev scope chosen before m m') :
      AwaitsClause ev scope chosen otherwise (before ++ (guard, body) :: after) m (.expr guard scope) m'
  | body {guard : Expr} {body : Block} {v : Value} {before after : List (Expr × Block)} {m m₁ m' : Machine}
      (skips : Skips ev scope chosen before m m₁) (run : ev guard scope m₁ = (.ok v, m')) (ordinary : v.Ordinary)
      (isChosen : chosen v = true) :
      AwaitsClause ev scope chosen otherwise (before ++ (guard, body) :: after) m (.block body scope) m'
  | otherwise {body : Block} {clauses : List (Expr × Block)} {m m' : Machine}
      (skips : Skips ev scope chosen clauses m m') (isGiven : otherwise = some body) :
      AwaitsClause ev scope chosen otherwise clauses m (.block body scope) m'

/-- The parts of one round of a loop: the body in a scope of its own, and the step if there is one. -/
def roundParts (ev : Evaluator) (scope : ScopeId) (body : Block) (step : Option Stmt) : List (Eval Value) :=
  evalInside ev scope body :: step.toList.map (evalStmt ev scope)

/-- The part that a loop comes to after some full rounds: the condition or, if the condition holds once more, the body
    in a new scope or the step. -/
inductive AwaitsRound (ev : Evaluator) (rounds : Nat) (scope : ScopeId) (condition : Expr) (body : Block)
    (step : Option Stmt) : Machine → Task → Machine → Prop where
  | condition {k : Nat} {m m' : Machine} (within : k < rounds)
      (full : Rounds (ev condition scope) (roundParts ev scope body step) k m m') :
      AwaitsRound ev rounds scope condition body step m (.expr condition scope) m'
  | body {inner : ScopeId} {m m₁ m' : Machine}
      (entered : Enters (ev condition scope) (roundParts ev scope body step) rounds m m₁)
      (opened : Eval.newScope (some scope) m₁ = (.ok inner, m')) :
      AwaitsRound ev rounds scope condition body step m (.block body inner) m'
  | step {w : Value} {s : Stmt} {m m₁ m' : Machine}
      (entered : Enters (ev condition scope) (roundParts ev scope body step) rounds m m₁)
      (run : evalInside ev scope body m₁ = (.ok w, m')) (ordinary : w.Ordinary) (isGiven : step = some s) :
      AwaitsRound ev rounds scope condition body step m (.stmt s scope) m'

/-- The part that a form comes to, and in which machine, when the parts before it have had ordinary values. -/
inductive Awaits (ev : Evaluator) (rounds : Nat) : Task → Machine → Task → Machine → Prop where
  /-- the value of a statement -/
  | value {s : Stmt} {scope : ScopeId} {m : Machine} : Awaits ev rounds (.stmt s scope) m (.expr s.value scope) m
  /-- a statement of a block -/
  | statement {s : Stmt} {before after : Block} {scope : ScopeId} {vs : List Value} {m m' : Machine}
      (passes : Passes (before.map (evalStmt ev scope)) m vs m') :
      Awaits ev rounds (.block (before ++ s :: after) scope) m (.stmt s scope) m'
  /-- an item of an array, an operand of an operator, the subject of a switch, a callee or an argument, or a part of an
      index expression -/
  | operand {e part : Expr} {before after : List Expr} {scope : ScopeId} {vs : List Value} {m m' : Machine}
      (isOperand : e.operands = before ++ part :: after) (passes : Passes (before.map (ev · scope)) m vs m') :
      Awaits ev rounds (.expr e scope) m (.expr part scope) m'
  /-- the second operand of `&&` or `||`, if the first one does not decide -/
  | second {op : BinaryOp} {left right : Expr} {scope : ScopeId} {v : Value} {m m' : Machine}
      (isLazy : op.isLazy = true) (run : ev left scope m = (.ok v, m')) (ordinary : v.Ordinary)
      (undecided : op.decidedBy v = false) :
      Awaits ev rounds (.expr (.binary op left right) scope) m (.expr right scope) m'
  | key {key value : Expr} {before after : List (Expr × Expr)} {scope : ScopeId} {m m' : Machine}
      (passes : PassesEntries ev scope before m m') :
      Awaits ev rounds (.expr (.hash (before ++ (key, value) :: after)) scope) m (.expr key scope) m'
  | keyed {key value : Expr} {before after : List (Expr × Expr)} {scope : ScopeId} {k : Value} {k' : Key}
      {m m₁ m' : Machine} (passes : PassesEntries ev scope before m m₁) (run : ev key scope m₁ = (.ok k, m'))
      (ordinary : k.Ordinary) (usable : k.key? = some k') :
      Awaits ev rounds (.expr (.hash (before ++ (key, value) :: after)) scope) m (.expr value scope) m'
  | clause {clauses : List (Expr × Block)} {otherwise : Option Block} {scope : ScopeId} {part : Task} {m m' : Machine}
      (awaits : AwaitsClause ev scope Value.truthy otherwise clauses m part m') :
      Awaits ev rounds (.expr (.conditional clauses otherwise) scope) m part m'
  | switchCase {subject : Expr} {cases : List (Expr × Block)} {otherwise : Option Block} {scope : ScopeId} {v : Value}
      {part : Task} {m m₁ m' : Machine} (run : ev subject scope m = (.ok v, m₁)) (ordinary : v.Ordinary)
      (awaits : AwaitsClause ev scope (fun w => w.same v) otherwise cases m₁ part m') :
      Awaits ev rounds (.expr (.switch subject cases otherwise) scope) m part m'
  | whileRound {condition : Expr} {body : Block} {scope : ScopeId} {part : Task} {m m' : Machine}
      (awaits : AwaitsRound ev rounds scope condition body none m part m') :
      Awaits ev rounds (.expr (.whileLoop condition body) scope) m part m'
  | start {start step : Stmt} {condition : Expr} {body : Block} {scope around : ScopeId} {m m' : Machine}
      (opened : Eval.newScope (some scope) m = (.ok around, m')) :
      Awaits ev rounds (.expr (.forLoop start condition step body) scope) m (.stmt start around) m'
  | forRound {start step : Stmt} {condition : Expr} {body : Block} {scope around : ScopeId} {v : Value} {part : Task}
      {m m₁ m₂ m' : Machine} (opened : Eval.newScope (some scope) m = (.ok around, m₁))
      (run : evalStmt ev around start m₁ = (.ok v, m₂)) (ordinary : v.Ordinary)
      (awaits : AwaitsRound ev rounds around condition body (some step) m₂ part m') :
      Awaits ev rounds (.expr (.forLoop start condition step body) scope) m part m'

section Leaving

variable {ev : Evaluator} {call : Caller} {rounds : Nat} {scope : ScopeId} {part : Task} {m m' m'' : Machine}
  {result : Except Stop Value}

theorem evalStmt_of_early {s : Stmt} (run : ev s.value scope m = (result, m')) (early : Early result) :
    evalStmt ev scope s m = (result, m') := by
  cases s with
  | expr e => exact run
  | _ => exact Eval.operand_of_early run early

theorem AwaitsClause.leave {chosen : Value → Bool} {otherwise : Option Block} {clauses : List (Expr × Block)}
    (awaits : AwaitsClause ev scope chosen otherwise clauses m part m') (ends : part.run ev m' = (result, m''))
    (early : Early result) : evalClauses ev scope chosen otherwise clauses m = (result, m'') := by
  cases awaits with
  | guard skips => exact (evalClauses_of_skips skips).trans (Eval.operand_of_early ends early)
  | body skips run ordinary isChosen =>
      rw [evalClauses_of_skips skips, evalClauses, Eval.operand_of_ordinary run ordinary, if_pos isChosen]
      exact ends
  | otherwise skips isGiven =>
      have none : evalClauses ev scope chosen otherwise (clauses ++ []) m = _ := evalClauses_of_skips skips
      rw [List.append_nil] at none
      rw [none, isGiven]
      exact ends

theorem AwaitsRound.leave {condition : Expr} {body : Block} {step : Option Stmt}
    (awaits : AwaitsRound ev rounds scope condition body step m part m') (ends : part.run ev m' = (result, m''))
    (early : Early result) :
    repeatWhile (ev condition scope) (inTurn (roundParts ev scope body step)) rounds m = (result, m'') := by
  cases awaits with
  | condition within full => exact repeatWhile_of_test within full ends early
  | body entered opened =>
      have leaves : evalInside ev scope body _ = (result, m'') := (Eval.bind_of_ok opened).trans ends
      exact repeatWhile_of_round entered (inTurn_of_early leaves early) early
  | step entered run ordinary isGiven =>
      subst isGiven
      have passes : Passes [evalInside ev scope body] _ _ _ := .cons run ordinary .nil
      exact repeatWhile_of_round entered ((inTurn_of_passes passes).trans ends) early

theorem Awaits.leave {form : Task} (awaits : Awaits ev rounds form m part m') (ends : part.run ev m' = (result, m''))
    (early : Early result) : form.evaluate ev call rounds m = (result, m'') := by
  -- each rule says what was evaluated before the part; running the form that far leaves it at the part, which ends it
  cases awaits with
  | value => exact evalStmt_of_early ends early
  | statement passes =>
      show evalBlock _ _ _ _ = _
      rw [evalBlock_eq_inTurn, List.map_append, List.map_cons, inTurn_of_passes passes]
      exact inTurn_of_early ends early
  | @operand e _ _ _ scope _ _ _ isOperand passes =>
      obtain ⟨next, isForm⟩ := evalForm_eq_evalOperands ev call rounds scope e
      show evalForm _ _ _ _ _ _ = _
      rw [isForm, isOperand]
      exact evalOperands_of_early passes ends early
  | second isLazy run ordinary undecided =>
      show evalBinary _ _ _ _ _ _ = _
      rw [evalBinary_of_lazy isLazy, evalOperands, Eval.operand_of_ordinary run ordinary, evalOperands,
        List.headD_cons, if_neg (Bool.eq_false_iff.1 undecided)]
      exact Eval.operand_of_early ends early
  | key passes =>
      obtain ⟨entries, goesOn⟩ := evalEntries_of_passes passes []
      exact goesOn.trans (Eval.operand_of_early ends early)
  | keyed passes run ordinary usable =>
      obtain ⟨entries, goesOn⟩ := evalEntries_of_passes passes []
      refine goesOn.trans ?_
      rw [evalEntries, Eval.operand_of_ordinary run ordinary]
      simp only [usable]
      exact Eval.operand_of_early ends early
  | clause awaits => exact awaits.leave ends early
  | switchCase run ordinary awaits =>
      exact (Eval.operand_of_ordinary run ordinary).trans (awaits.leave ends early)
  | whileRound awaits => exact awaits.leave ends early
  | start opened => exact (Eval.bind_of_ok opened).trans (Eval.operand_of_early ends early)
  | forRound opened run ordinary awaits =>
      exact (Eval.bind_of_ok opened).trans
        ((Eval.operand_of_ordinary run ordinary).trans (awaits.leave ends early))

end Leaving

/-!
### Programs, quotations and expansions
-/

section Stops

variable {ev : Evaluator} {call : Caller} {rounds : Nat} {scope : ScopeId} {m m' m'' : Machine} {s : Stop}

/-- How a program ends whose statements end like this. -/
def programEnd : Except Stop Value → Except Stop Value
  | .ok v => .ok v.content
  | .error (.fault f) => .ok (.error f)
  | .error other => .error other

theorem evalProgramBy_of_block {result : Except Stop Value} {p : Program}
    (ran : evalBlock ev scope p.statements m = (result, m')) :
    evalProgramBy ev p scope m = (programEnd result, m') := by
  simp only [evalProgramBy, ran]
  rcases result with (f | x | _) | v <;> rfl

theorem evalQuote_of_stop {e arg : Expr}
    (reaches : (Walk.ofNode (.expr e)).Reaches (splice (ev · scope)) m (.expr (.call (.ident unquoteName) [arg])) m')
    (stops : ev arg scope m' = (.error s, m'')) :
    evalForm ev call rounds scope (.call (.ident quoteName) [e]) m = (.error s, m'') := by
  have spliced : splice (ev · scope) (.expr (.call (.ident unquoteName) [arg])) m' = (.error s, m'') :=
    Eval.bind_of_error stops
  have walked := transform_of_stop reaches spliced
  exact Eval.bind_of_error walked

/-- How a stop in the body of a macro is reported. -/
def Stop.onBehalfOf (name : String) : Stop → Stop
  | fault f => .misuse (.failed name f)
  | other => other

theorem onBehalfOf_of_stop {α : Type} {p : Eval α} (name : String) (stops : p m = (.error s, m')) :
    onBehalfOf name p m = (.error (s.onBehalfOf name), m') := by
  cases s <;> simp only [onBehalfOf, Eval.mapFault, stops, Stop.onBehalfOf]

theorem expandMacrosBy_of_stop {p : Program} {macros inner : ScopeId} {name : String} {args : List Expr} {mac : Macro}
    {m₁ m₂ : Machine}
    (reaches : (Walk.ofNode (.program p)).Reaches (expandNode ev macros) m (.expr (.call (.ident name) args)) m')
    (isMacro : m'.store.get? macros name = some (.macroValue mac)) (sameLength : args.length = mac.params.length)
    (opened : Eval.newScope (some mac.scope) m' = (.ok inner, m₁))
    (bound : Eval.defineAll inner (mac.params.zip (args.map fun e => .quote (.expr e))) m₁ = (.ok (), m₂))
    (stops : evalBlock ev inner mac.body m₂ = (.error s, m'')) :
    expandMacrosBy ev macros p m = (.error (s.onBehalfOf name), m'') := by
  have ran : (do
      let inner ← Eval.newScope (some mac.scope)
      Eval.defineAll inner (mac.params.zip (args.map fun e => .quote (.expr e)))
      evalBlock ev inner mac.body : Eval Value) m' = (.error s, m'') :=
    (Eval.bind_of_ok opened).trans ((Eval.bind_of_ok bound).trans stops)
  have called : expandCall ev name mac args m' = (.error (s.onBehalfOf name), m'') := by
    rw [expandCall, if_pos sameLength]
    exact Eval.bind_of_error (onBehalfOf_of_stop name ran)
  have answered : expandNode ev macros (.expr (.call (.ident name) args)) m' = (.error (s.onBehalfOf name), m'') := by
    have found : Eval.lookup macros name m' = (.ok (some (.macroValue mac)), m') := by
      rw [Eval.lookup, isMacro]
    exact (Eval.bind_of_ok found).trans called
  exact Eval.bind_of_error (transform_of_stop reaches answered)

end Stops

/-!
### Main result
-/

/-- Stops and pending returns leave everything that they happen in, with the machine as it is then. -/
structure LeavesAtOnce (ev : Evaluator) (call : Caller) (rounds : Nat) : Prop where
  /-- A form ends as the part that it waits for ends early. -/
  forms : ∀ {form part : Task} {m m' m'' : Machine} {result : Except Stop Value},
    Awaits ev rounds form m part m' → part.run ev m' = (result, m'') → Early result →
      form.evaluate ev call rounds m = (result, m'')
  /-- So does a program, which hands out the content of the return or the fault. -/
  programs : ∀ {before after : Block} {s : Stmt} {scope : ScopeId} {vs : List Value} {m m' m'' : Machine}
      {result : Except Stop Value},
    Passes (before.map (evalStmt ev scope)) m vs m' → evalStmt ev scope s m' = (result, m'') → Early result →
      evalProgramBy ev ⟨before ++ s :: after⟩ scope m = (programEnd result, m'')
  /-- A stop in a marked place leaves the quotation. -/
  quotations : ∀ {e arg : Expr} {scope : ScopeId} {m m' m'' : Machine} {s : Stop},
    (Walk.ofNode (.expr e)).Reaches (splice (ev · scope)) m (.expr (.call (.ident unquoteName) [arg])) m' →
      ev arg scope m' = (.error s, m'') →
        evalForm ev call rounds scope (.call (.ident quoteName) [e]) m = (.error s, m'')
  /-- A stop in the body of a macro leaves the expansion; a fault is reported on behalf of the macro. -/
  expansions : ∀ {p : Program} {macros inner : ScopeId} {name : String} {args : List Expr} {mac : Macro}
      {m m₁ m₂ m₃ m' : Machine} {s : Stop},
    (Walk.ofNode (.program p)).Reaches (expandNode ev macros) m (.expr (.call (.ident name) args)) m₁ →
      m₁.store.get? macros name = some (.macroValue mac) → args.length = mac.params.length →
        Eval.newScope (some mac.scope) m₁ = (.ok inner, m₂) →
          Eval.defineAll inner (mac.params.zip (args.map fun e => .quote (.expr e))) m₂ = (.ok (), m₃) →
            evalBlock ev inner mac.body m₃ = (.error s, m') →
              expandMacrosBy ev macros p m = (.error (s.onBehalfOf name), m')

/-- Whatever evaluates the parts of a form, calls values and bounds the rounds of loops, an early end of a part is the
    end of everything around it. -/
theorem early_end_leaves_at_once (ev : Evaluator) (call : Caller) (rounds : Nat) : LeavesAtOnce ev call rounds where
  forms awaits ends early := awaits.leave ends early
  programs := by
    intro before after s scope vs m m' m'' result passes ends early
    have awaits : Awaits ev rounds (.block (before ++ s :: after) scope) m (.stmt s scope) m' := .statement passes
    have leaves : (Task.block (before ++ s :: after) scope).evaluate ev call rounds m = (result, m'') :=
      awaits.leave ends early
    exact evalProgramBy_of_block leaves
  quotations := evalQuote_of_stop
  expansions := expandMacrosBy_of_stop

/-- In `[fn() {}, if (true) { return 2 }, fn() {}]` the second function is not made, nor is it in the quotation
    `quote([unquote(fn() {}), unquote(x), unquote(fn() {})])`, nor is a macro expanded behind one that fails. -/
theorem early_end_leaves_at_once_between_functions :
    let made : Machine := ⟨Store.empty, 1, .unlimited⟩
    let failing : Binding := ⟨.macroValue ⟨["x"], [.expr (.ident "y")], 0, 0⟩, false⟩
    evalExpr 3 (.array [.function none [] [], .conditional [(.boolean true, [.ret (.integer 2)])] none,
        .function none [] []]) 0 (Machine.start .unlimited) = (.ok (.returned (.integer 2)), made) ∧
    evalExpr 2 (.call (.ident quoteName) [.array [.call (.ident unquoteName) [.function none [] []],
        .call (.ident unquoteName) [.ident "x"], .call (.ident unquoteName) [.function none [] []]]]) 0
        (Machine.start .unlimited) = (.error (.fault (.unbound "x")), made) ∧
    expandMacros 1 0 ⟨[.expr (.call (.ident "m") [.null]), .expr (.call (.ident "m") [])]⟩
        ⟨⟨#[⟨none, [("m", failing)]⟩]⟩, 1, .unlimited⟩ =
      (.error (.misuse (.failed "m" (.unbound "y"))),
        ⟨⟨#[⟨none, [("m", failing)]⟩, ⟨some 0, [("x", ⟨.quote (.expr .null), false⟩)]⟩]⟩, 1, .unlimited⟩) := by
  intro made failing
  have passes : Passes ([Expr.function none [] []].map (evalExpr 2 · 0)) (Machine.start .unlimited) _ made :=
    .cons rfl (fun w isReturn => by cases isReturn) .nil
  refine ⟨(early_end_leaves_at_once _ _ _).forms (.operand rfl passes) rfl (.returning _), ?_, ?_⟩
  · have reaches : (Walk.ofNode (.expr (.array [.call (.ident unquoteName) [.function none [] []],
        .call (.ident unquoteName) [.ident "x"], .call (.ident unquoteName) [.function none [] []]]))).Reaches
          (splice (evalExpr 1 · 0)) (Machine.start .unlimited)
          (.expr (.call (.ident unquoteName) [.ident "x"])) made :=
      .later rfl (.later rfl (.later rfl (.later rfl (.later rfl (.later rfl .here)))))
    exact (early_end_leaves_at_once _ _ _).quotations reaches rfl
  · have reaches : (Walk.ofNode (.program
        ⟨[.expr (.call (.ident "m") [.null]), .expr (.call (.ident "m") [])]⟩)).Reaches
          (expandNode (evalExpr 1) 0) ⟨⟨#[⟨none, [("m", failing)]⟩]⟩, 1, .unlimited⟩
          (.expr (.call (.ident "m") [.null])) ⟨⟨#[⟨none, [("m", failing)]⟩]⟩, 1, .unlimited⟩ :=
      .later rfl (.later rfl .here)
    exact (early_end_leaves_at_once _ (applyValue (evalExpr 1)) 1).expansions reaches rfl rfl rfl rfl rfl

end Quill
