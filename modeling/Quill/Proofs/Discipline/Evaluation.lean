/-
Module: Quill.Proofs.Discipline.Evaluation
Layer: Proofs
Purpose: Evaluation respects every discipline. Each form of the language is taken once: if two evaluators of
  the parts and two ways to call values are alike wherever the discipline holds, so are the two
  evaluations of the whole. `Discipline.evalExpr_alike` closes the circle by induction on the bound, and
  sessions follow from it.
Main exports: Discipline.Evaluates, Discipline.Calls, Discipline.evalForm_alike,
  Discipline.evalExpr_alike, Discipline.evalProgramBy_alike, Discipline.runProgram_alike
-/
import Quill.Proofs.Assoc
import Quill.Proofs.Discipline
import Quill.Proofs.Tree.Traversal
import Quill.Session

namespace Quill

namespace Discipline

variable {D : Discipline} {m : Machine} {scope : ScopeId}

/-- Two evaluators are alike in every machine and scope that the discipline admits. -/
def Evaluates (D : Discipline) (ev ev' : Evaluator) : Prop :=
  ∀ ⦃m e scope⦄, D.sound m → D.runs m scope → D.Alike m (ev e scope) (ev' e scope) D.Outcome

/-- Two ways to call values are alike on good values; a call yields a good value, never a pending
    return. -/
def Calls (D : Discipline) (call call' : Caller) : Prop :=
  ∀ ⦃m f vs⦄, D.sound m → D.good m f → (∀ v ∈ vs, D.good m v) →
    D.Alike m (call f vs) (call' f vs) D.good

/-!
### Operators, indexing and builtins

What they yield is atomic, or a part of an operand.
-/

theorem good_unary {op : UnaryOp} {v result : Value} (ok : Operation.unary op v = .ok result) :
    D.good m result := by
  cases op with
  | not =>
      cases ok
      exact D.good_atomic trivial
  | negate =>
      cases v <;> cases ok
      · exact D.good_atomic trivial
      · exact D.good_atomic trivial

theorem atomic_unlessZero {isZero : Bool} {v result : Value}
    (ok : Operation.unlessZero isZero v = .ok result) (atomic : v.Atomic) : result.Atomic := by
  cases isZero with
  | true => cases ok
  | false =>
      cases ok
      exact atomic

theorem atomic_integers {op : BinaryOp} {l r : Int64} {result : Value}
    (ok : Operation.integers op l r = .ok result) : result.Atomic := by
  cases op with
  | divide => exact atomic_unlessZero ok trivial
  | floorDivide => exact atomic_unlessZero ok trivial
  | remainder => exact atomic_unlessZero ok trivial
  | power =>
      simp only [Operation.integers] at ok
      split at ok
      · cases ok
        trivial
      · cases ok
        trivial
  | and => cases ok
  | or => cases ok
  | _ =>
      cases ok
      trivial

theorem atomic_floats {op : BinaryOp} {l r : Float} {result : Value}
    (ok : Operation.floats op l r = .ok result) : result.Atomic := by
  cases op with
  | divide => exact atomic_unlessZero ok trivial
  | floorDivide => exact atomic_unlessZero ok trivial
  | remainder => exact atomic_unlessZero ok trivial
  | and => cases ok
  | or => cases ok
  | _ =>
      cases ok
      trivial

theorem atomic_alike {op : BinaryOp} {l r result : Value}
    (ok : Operation.alike op l r = .ok result) : result.Atomic := by
  unfold Operation.alike at ok
  split at ok
  · cases ok
    trivial
  · cases ok
    trivial
  · cases ok
    trivial
  · cases ok

theorem good_binary {op : BinaryOp} {l r result : Value}
    (ok : Operation.binary op l r = .ok result) : D.good m result := by
  unfold Operation.binary at ok
  split at ok
  · exact D.good_atomic (atomic_integers ok)
  · exact D.good_atomic (atomic_floats ok)
  · exact D.good_atomic (atomic_floats ok)
  · exact D.good_atomic (atomic_floats ok)
  · split at ok
    · exact D.good_atomic (atomic_alike ok)
    · cases ok

theorem mem_of_elementAt {α : Type} {items : List α} {i : Int64} {item : α}
    (ok : Operation.elementAt items i = .ok item) : item ∈ items := by
  unfold Operation.elementAt at ok
  split at ok
  · rename_i found
    cases ok
    split at found
    · exact List.mem_of_getElem? found
    · cases found
  · cases ok

theorem good_index {subject key result : Value} (good : D.good m subject)
    (ok : Operation.index subject key = .ok result) : D.good m result := by
  unfold Operation.index at ok
  split at ok
  · exact D.good_array.1 good result (mem_of_elementAt ok)
  · rename_i s i
    cases found : Operation.elementAt s.toList i with
    | error f => simp [found, Except.map] at ok
    | ok c =>
        simp only [found, Except.map, Except.ok.injEq] at ok
        rw [← ok]
        exact D.good_atomic trivial
  · split at ok
    · cases ok
    · split at ok
      · rename_i v found
        cases ok
        exact (D.good_hash_entry good (Assoc.mem_of_lookup found)).2
      · cases ok
  · cases ok

theorem good_firstOrNull {items : List Value} (good : ∀ v ∈ items, D.good m v) :
    D.good m (Builtin.firstOrNull items) := by
  cases items with
  | nil => exact D.good_atomic trivial
  | cons v rest => exact good v List.mem_cons_self

theorem good_restOrNull {items : List Value} (good : ∀ v ∈ items, D.good m v) :
    D.good m (Builtin.restOrNull items) := by
  cases items with
  | nil => exact D.good_atomic trivial
  | cons v rest => exact D.good_array.2 fun w member => good w (List.mem_cons_of_mem v member)

theorem good_builtin {b : Builtin} {args : List Value} {result : Value}
    (good : ∀ v ∈ args, D.good m v) (ok : b.value args = .ok result) : D.good m result := by
  unfold Builtin.value at ok
  split at ok <;> cases ok
  · exact D.good_atomic trivial
  · exact D.good_atomic trivial
  · exact D.good_atomic trivial
  · exact good_firstOrNull (D.good_array.1 (good _ List.mem_cons_self))
  · refine good_firstOrNull fun v member => ?_
    exact D.good_array.1 (good _ List.mem_cons_self) v (List.mem_reverse.1 member)
  · exact good_restOrNull (D.good_array.1 (good _ List.mem_cons_self))
  · rename_i items last
    refine D.good_array.2 fun v member => ?_
    rcases List.mem_append.1 member with old | new
    · exact D.good_array.1 (good _ List.mem_cons_self) v old
    · rw [List.mem_singleton.1 new]
      exact good last (List.mem_cons_of_mem _ List.mem_cons_self)
  · refine D.good_array.2 fun v member => ?_
    obtain ⟨entry, inHash, rfl⟩ := List.mem_map.1 member
    exact (D.good_hash_entry (good _ List.mem_cons_self) inHash).1
  · exact D.good_atomic trivial
  · exact D.good_atomic trivial

theorem printLines_alike (vs : List Value) : ∀ {m}, D.sound m →
    D.Alike m (Builtin.printLines vs) (Builtin.printLines vs) D.good := by
  induction vs with
  | nil =>
      intro m sound
      exact .pure sound (D.good_atomic trivial)
  | cons v rest inductionHypothesis =>
      intro m sound
      exact .bind (.write sound) fun _ _ _ sound' _ => inductionHypothesis sound'

theorem callBuiltin_alike (b : Builtin) {args : List Value} (sound : D.sound m)
    (good : ∀ v ∈ args, D.good m v) : D.Alike m (b.call args) (b.call args) D.good := by
  unfold Builtin.call
  split
  · exact printLines_alike args sound
  · split
    · exact .ofExcept sound fun _ ok => good_builtin good ok
    · exact .stop sound _

/-!
### Statements

`later` and `sound` come from the logic; what is needed besides is that a scope in which code runs stays
one.
-/

section Forms

variable {ev ev' : Evaluator} (evaluates : D.Evaluates ev ev')

include evaluates

theorem evalStmt_alike (s : Stmt) (sound : D.sound m) (runs : D.runs m scope) :
    D.Alike m (evalStmt ev scope s) (evalStmt ev' scope s) D.Outcome := by
  cases s with
  | bind name value =>
      refine .operand (evaluates sound runs) fun v m' later sound' good => ?_
      refine .bind (.define sound' (D.runs_later later runs) good) fun _ m'' _ sound'' _ => ?_
      exact .pure sound'' (D.good_atomic trivial)
  | bindConst name value =>
      refine .operand (evaluates sound runs) fun v m' later sound' good => ?_
      refine .bind (.defineConst sound' (D.runs_later later runs) good) fun _ m'' _ sound'' _ => ?_
      exact .pure sound'' (D.good_atomic trivial)
  | assign name value =>
      refine .operand (evaluates sound runs) fun v m' later sound' good => ?_
      refine .bind (.assign sound' (D.runs_later later runs) good) fun _ m'' _ sound'' _ => ?_
      exact .pure sound'' (D.good_atomic trivial)
  | ret value =>
      refine .operand (evaluates sound runs) fun v m' _ sound' good => ?_
      exact .pure sound' good
  | expr e => exact evaluates sound runs

theorem evalBlock_alike (body : Block) : ∀ {m}, D.sound m → D.runs m scope →
    D.Alike m (evalBlock ev scope body) (evalBlock ev' scope body) D.Outcome := by
  induction body with
  | nil =>
      intro m sound _
      exact .pure sound (D.good_atomic trivial)
  | cons s rest inductionHypothesis =>
      intro m sound runs
      cases rest with
      | nil => exact evalStmt_alike evaluates s sound runs
      | cons next rest =>
          refine .operand (evalStmt_alike evaluates s sound runs) fun _ m' later sound' _ => ?_
          exact inductionHypothesis sound' (D.runs_later later runs)

/-!
### Parts of expressions
-/

theorem evalOperands_alike (es : List Expr) : ∀ {m} {next next' : List Value → Eval Value},
    D.sound m → D.runs m scope →
    (∀ vs m', D.later m m' → D.sound m' → (∀ v ∈ vs, D.good m' v) →
      D.Alike m' (next vs) (next' vs) D.Outcome) →
    D.Alike m (evalOperands ev scope es next) (evalOperands ev' scope es next') D.Outcome := by
  induction es with
  | nil =>
      intro m next next' sound _ goesOn
      exact goesOn [] m (D.later_refl m) sound (by simp)
  | cons e es inductionHypothesis =>
      intro m next next' sound runs goesOn
      refine .operand (evaluates sound runs) fun v m' later sound' good => ?_
      refine inductionHypothesis sound' (D.runs_later later runs) ?_
      intro vs m'' later' sound'' goods
      refine goesOn (v :: vs) m'' (D.later_trans later later') sound'' ?_
      intro w member
      rcases List.mem_cons.1 member with rfl | member
      · exact D.good_later later' good
      · exact goods w member

theorem evalEntries_alike (pairs : List (Expr × Expr)) : ∀ {m} {entries : List (Key × Value × Value)},
    D.sound m → D.runs m scope → D.good m (.hash entries) →
    D.Alike m (evalEntries ev scope entries pairs) (evalEntries ev' scope entries pairs) D.Outcome := by
  induction pairs with
  | nil =>
      intro m entries sound _ good
      exact .pure sound good
  | cons pair rest inductionHypothesis =>
      obtain ⟨key, value⟩ := pair
      intro m entries sound runs good
      refine .operand (evaluates sound runs) fun k m' later sound' goodK => ?_
      cases isKey : k.key? with
      | none => exact .stop sound' _
      | some k' =>
          refine .operand (evaluates sound' (D.runs_later later runs)) fun v m'' later' sound'' goodV => ?_
          have reached := D.later_trans later later'
          exact inductionHypothesis sound'' (D.runs_later reached runs)
            (D.good_hash_set (D.good_later reached good) isKey (D.good_later later' goodK) goodV)

theorem evalClauses_alike (chosen : Value → Bool) (otherwise : Option Block)
    (clauses : List (Expr × Block)) : ∀ {m}, D.sound m → D.runs m scope →
    D.Alike m (evalClauses ev scope chosen otherwise clauses)
      (evalClauses ev' scope chosen otherwise clauses) D.Outcome := by
  induction clauses with
  | nil =>
      intro m sound runs
      cases otherwise with
      | none => exact .pure sound (D.good_atomic trivial)
      | some body => exact evalBlock_alike evaluates body sound runs
  | cons clause rest inductionHypothesis =>
      obtain ⟨guard, body⟩ := clause
      intro m sound runs
      refine .operand (evaluates sound runs) fun v m' later sound' _ => ?_
      have runs' := D.runs_later later runs
      by_cases picked : chosen v = true
      · simp only [picked, if_true]
        exact evalBlock_alike evaluates body sound' runs'
      · simp only [picked, if_false, Bool.false_eq_true]
        exact inductionHypothesis sound' runs'

theorem evalBinary_alike (op : BinaryOp) (left right : Expr) (sound : D.sound m)
    (runs : D.runs m scope) :
    D.Alike m (evalBinary ev scope op left right) (evalBinary ev' scope op left right) D.Outcome := by
  refine .operand (evaluates sound runs) fun l m' later sound' _ => ?_
  have second := evaluates (e := right) sound' (D.runs_later later runs)
  split
  · exact .pure sound' (D.good_atomic trivial)
  · exact .pure sound' (D.good_atomic trivial)
  · exact .operand second fun _ _ _ sound'' _ => .pure sound'' (D.good_atomic trivial)
  · exact .operand second fun _ _ _ sound'' _ => .pure sound'' (D.good_atomic trivial)
  · refine .operand second fun r m'' _ sound'' _ => ?_
    exact .ofExcept sound'' fun _ ok => outcome_of_good (good_binary ok)

end Forms

/-!
### Loops

The induction is on the rounds; the test and the round are alike in every later machine.
-/

theorem repeatWhile_alike {test test' round round' : Eval Value} (rounds : Nat) :
    ∀ {m}, D.sound m →
    (∀ m', D.later m m' → D.sound m' → D.Alike m' test test' D.Outcome) →
    (∀ m', D.later m m' → D.sound m' → D.Alike m' round round' D.Outcome) →
    D.Alike (α := Value) m (repeatWhile test round rounds) (repeatWhile test' round' rounds)
      D.Outcome := by
  induction rounds with
  | zero =>
      intro m sound _ _
      exact .stop sound .exhausted
  | succ rounds inductionHypothesis =>
      intro m sound tests goes
      refine .operand (tests m (D.later_refl m) sound) fun v m' later sound' _ => ?_
      by_cases isTrue : v.truthy = true
      · simp only [isTrue, if_true]
        refine .operand (goes m' later sound') fun _ m'' later' sound'' _ => ?_
        have reached := D.later_trans later later'
        exact inductionHypothesis sound'' (fun _ more => tests _ (D.later_trans reached more))
          fun _ more => goes _ (D.later_trans reached more)
      · simp only [isTrue, if_false, Bool.false_eq_true]
        exact .pure sound' (D.good_atomic trivial)

section Loops

variable {ev ev' : Evaluator} (evaluates : D.Evaluates ev ev')

include evaluates

theorem evalInside_alike (body : Block) (sound : D.sound m) (encloses : D.encloses m scope) :
    D.Alike m (evalInside ev scope body) (evalInside ev' scope body) D.Outcome := by
  refine .bind (.newScope sound encloses) fun inner m' _ sound' runs' => ?_
  exact evalBlock_alike evaluates body sound' runs'

theorem evalWhile_alike (rounds : Nat) (condition : Expr) (body : Block) (sound : D.sound m)
    (runs : D.runs m scope) :
    D.Alike m (evalWhile ev rounds scope condition body) (evalWhile ev' rounds scope condition body)
      D.Outcome := by
  refine repeatWhile_alike rounds sound ?_ ?_
  · intro m' later sound'
    exact evaluates sound' (D.runs_later later runs)
  · intro m' later sound'
    exact evalInside_alike evaluates body sound' (D.encloses_of_runs (D.runs_later later runs))

theorem evalFor_alike (rounds : Nat) (start : Stmt) (condition : Expr) (step : Stmt) (body : Block)
    (sound : D.sound m) (encloses : D.encloses m scope) :
    D.Alike m (evalFor ev rounds scope start condition step body)
      (evalFor ev' rounds scope start condition step body) D.Outcome := by
  refine .bind (.newScope sound encloses) fun around m' _ sound' runs' => ?_
  refine .operand (evalStmt_alike evaluates start sound' runs') fun _ m'' later' sound'' _ => ?_
  have runs'' := D.runs_later later' runs'
  refine repeatWhile_alike rounds sound'' ?_ ?_
  · intro n later soundAtTest
    exact evaluates soundAtTest (D.runs_later later runs'')
  · intro n later soundAtRound
    have runsAtRound := D.runs_later later runs''
    refine .operand (evalInside_alike evaluates body soundAtRound (D.encloses_of_runs runsAtRound)) ?_
    intro _ n' laterAtStep soundAtStep _
    exact evalStmt_alike evaluates step soundAtStep (D.runs_later laterAtStep runsAtRound)

/-!
### Calls
-/

theorem applyClosure_alike (c : Closure) {args : List Value} (sound : D.sound m)
    (encloses : D.encloses m c.scope) (good : ∀ v ∈ args, D.good m v) :
    D.Alike m (applyClosure ev c args) (applyClosure ev' c args) D.good := by
  unfold applyClosure
  split
  · refine .bind (.newScope sound encloses) fun inner m' later sound' runs' => ?_
    have goodPairs : ∀ pair ∈ c.params.zip args, D.good m' pair.2 := by
      intro pair member
      exact D.good_later later (good pair.2 (List.of_mem_zip member).2)
    refine .bind (.defineAll _ sound' runs' goodPairs) fun _ m'' later' sound'' _ => ?_
    refine .bind (evalBlock_alike evaluates c.body sound'' (D.runs_later later' runs')) ?_
    intro v n _ soundAtEnd outcome
    exact .pure soundAtEnd outcome
  · exact .stop sound _

theorem applyValue_alike : D.Calls (applyValue ev) (applyValue ev') := by
  intro m f vs sound good goods
  unfold applyValue
  split
  · exact applyClosure_alike evaluates _ sound (D.encloses_function good) goods
  · exact callBuiltin_alike _ sound goods
  · exact .stop sound _

end Loops

/-!
### Walks over trees
-/

/-- Two computations are alike in every machine that `m` may become. -/
def AlikeFrom (D : Discipline) (m : Machine) (α : Type) (p p' : Eval α) : Prop :=
  ∀ m', D.later m m' → D.sound m' → D.Alike m' p p' (fun _ _ => True)

theorem sequential_alikeFrom (D : Discipline) (m : Machine) : Sequential (D.AlikeFrom m) where
  pure _ _ _ sound := .pure sound trivial
  bind first next m' later sound :=
    .bind (first m' later sound) fun a m'' later' sound' _ => next a m'' (D.later_trans later later') sound'

/-!
### Quotation
-/

/-- What a good value stands for is good as a quotation. -/
theorem good_toNode {v : Value} {n : Node} (good : D.good m v) (stands : v.toNode? = some n) :
    D.good m (.quote n) := by
  cases v with
  | quote n' =>
      cases stands
      exact good
  | integer _ | float _ | boolean _ | text _ | null =>
      cases stands
      exact D.good_quote _
  | _ => cases stands

theorem toNode_content {v : Value} {n : Node} (stands : v.toNode? = some n) : v.content = v := by
  cases v with
  | returned w => cases stands
  | _ => rfl

section Quotation

variable {ev ev' : Evaluator} (evaluates : D.Evaluates ev ev')

include evaluates

/-- Splicing into an expression leaves it alone or puts a good tree in its place. -/
theorem splice_alike (e : Expr) (sound : D.sound m) (runs : D.runs m scope) :
    D.Alike m (splice (fun x => ev x scope) (.expr e)) (splice (fun x => ev' x scope) (.expr e))
      (fun m' n => D.good m' (.quote n)) := by
  unfold splice
  split
  · exact .pure sound (D.good_quote e)
  · refine .bind (evaluates sound runs) fun v m' _ sound' outcome => ?_
    refine .pure sound' ?_
    cases stands : v.toNode? with
    | none => exact D.good_quote e
    | some n =>
        refine good_toNode (v := v) ?_ stands
        rwa [Outcome, toNode_content stands] at outcome
  · exact .stop sound _

theorem splice_walks (runs : D.runs m scope) (n : Node) :
    D.AlikeFrom m Node (splice (fun x => ev x scope) n) (splice (fun x => ev' x scope) n) := by
  intro m' later sound
  cases n with
  | expr e =>
      refine (splice_alike evaluates e sound (D.runs_later later runs)).weaken ?_
      exact fun _ _ _ _ => trivial
  | _ => exact .pure sound trivial

theorem quotation_alike (e : Expr) (sound : D.sound m) (runs : D.runs m scope) :
    D.Alike m (quotation (fun x => ev x scope) e) (quotation (fun x => ev' x scope) e) D.Outcome := by
  have rebuilds : D.Alike m (Node.mapParts (splice fun x => ev x scope) (.expr e))
      (Node.mapParts (splice fun x => ev' x scope) (.expr e)) (fun _ n => ∃ e', n = .expr e') := by
    have parts := (D.sequential_alikeFrom m).mapParts (splice_walks evaluates runs) e
    refine .bind (parts m (D.later_refl m) sound) fun e' m' _ sound' _ => ?_
    exact .pure sound' ⟨e', rfl⟩
  have transforms : D.Alike m (Node.transform (splice fun x => ev x scope) (.expr e))
      (Node.transform (splice fun x => ev' x scope) (.expr e)) (fun m' n => D.good m' (.quote n)) := by
    refine .bind rebuilds fun n m' later sound' isExpr => ?_
    obtain ⟨e', rfl⟩ := isExpr
    exact splice_alike evaluates e' sound' (D.runs_later later runs)
  refine .bind transforms fun n m' _ sound' good => ?_
  exact .pure sound' good

theorem evalQuote_alike (args : List Expr) (sound : D.sound m) (runs : D.runs m scope) :
    D.Alike m (evalQuote ev scope args) (evalQuote ev' scope args) D.Outcome := by
  unfold evalQuote
  split
  · exact quotation_alike evaluates _ sound runs
  · exact .stop sound _

/-!
### Expressions
-/

theorem evalCall_alike {call call' : Caller} (calls : D.Calls call call') (callee : Expr)
    (args : List Expr) (sound : D.sound m) (runs : D.runs m scope) :
    D.Alike m (evalCall ev call scope callee args) (evalCall ev' call' scope callee args)
      D.Outcome := by
  unfold evalCall
  split
  · exact evalQuote_alike evaluates args sound runs
  · refine .operand (evaluates sound runs) fun f m' later sound' goodF => ?_
    refine evalOperands_alike evaluates args sound' (D.runs_later later runs) ?_
    intro vs m'' later' sound'' goods
    refine (calls sound'' (D.good_later later' goodF) goods).weaken ?_
    exact fun _ _ _ good => outcome_of_good good

omit evaluates in
theorem evalName_alike (name : String) (sound : D.sound m) (runs : D.runs m scope) :
    D.Alike m (evalName scope name) (evalName scope name) D.Outcome := by
  refine .bind (.lookup sound (D.encloses_of_runs runs)) fun found m' _ sound' good => ?_
  cases found with
  | some v => exact .pure sound' (outcome_of_good (good v rfl))
  | none =>
      cases Builtin.ofName? name with
      | some b => exact .pure sound' (D.good_atomic trivial)
      | none => exact .stop sound' _

/-- Every form of the language is alike under evaluators and calls that are alike. -/
theorem evalForm_alike {call call' : Caller} (calls : D.Calls call call') (rounds : Nat) (e : Expr)
    (sound : D.sound m) (runs : D.runs m scope) :
    D.Alike m (evalForm ev call rounds scope e) (evalForm ev' call' rounds scope e) D.Outcome := by
  cases e with
  | ident name => exact evalName_alike name sound runs
  | integer n => exact .pure sound (D.good_atomic trivial)
  | float x => exact .pure sound (D.good_atomic trivial)
  | boolean b => exact .pure sound (D.good_atomic trivial)
  | text content => exact .pure sound (D.good_atomic trivial)
  | null => exact .pure sound (D.good_atomic trivial)
  | array items =>
      refine evalOperands_alike evaluates items sound runs ?_
      intro vs m' _ sound' goods
      exact .pure sound' (D.good_array.2 goods)
  | hash pairs => exact evalEntries_alike evaluates pairs sound runs D.good_hash_nil
  | unary op operand =>
      refine .operand (evaluates sound runs) fun v m' _ sound' _ => ?_
      exact .ofExcept sound' fun _ ok => outcome_of_good (good_unary ok)
  | binary op left right => exact evalBinary_alike evaluates op left right sound runs
  | conditional clauses otherwise =>
      exact evalClauses_alike evaluates Value.truthy otherwise clauses sound runs
  | switch subject cases otherwise =>
      refine .operand (evaluates sound runs) fun v m' later sound' _ => ?_
      exact evalClauses_alike evaluates _ otherwise cases sound' (D.runs_later later runs)
  | whileLoop condition body => exact evalWhile_alike evaluates rounds condition body sound runs
  | forLoop start condition step body =>
      exact evalFor_alike evaluates rounds start condition step body sound (D.encloses_of_runs runs)
  | function name params body =>
      refine .bind (.freshIdentity sound) fun identity m' later sound' _ => ?_
      exact .pure sound' (D.good_function (D.encloses_of_runs (D.runs_later later runs)))
  | call callee args => exact evalCall_alike evaluates calls callee args sound runs
  | index subject key =>
      refine .operand (evaluates sound runs) fun s m' later sound' goodS => ?_
      refine .operand (evaluates sound' (D.runs_later later runs)) fun k m'' later' sound'' _ => ?_
      refine .ofExcept sound'' fun _ ok => ?_
      exact outcome_of_good (good_index (D.good_later later' goodS) ok)
  | macroLiteral params body =>
      refine .bind (.freshIdentity sound) fun identity m' later sound' _ => ?_
      exact .pure sound' (D.good_macro (D.encloses_of_runs (D.runs_later later runs)))

end Quotation

/-- Evaluation keeps every discipline, whatever the bound. -/
theorem evalExpr_alike (bound : Nat) : D.Evaluates (evalExpr bound) (evalExpr bound) := by
  induction bound with
  | zero =>
      intro m e scope sound _
      exact .stop sound .exhausted
  | succ bound inductionHypothesis =>
      intro m e scope sound runs
      exact evalForm_alike inductionHypothesis (applyValue_alike inductionHypothesis) bound e sound runs

/-!
### Programs, macros and sessions
-/

section Sessions

variable {ev ev' : Evaluator} (evaluates : D.Evaluates ev ev')

include evaluates

/-- A program yields the fault with which it failed, or else a good value. -/
theorem evalProgramBy_alike (p : Program) (sound : D.sound m) (runs : D.runs m scope) :
    D.Alike m (evalProgramBy ev p scope) (evalProgramBy ev' p scope)
      (fun m' v => D.good m' v ∨ ∃ f, v = .error f) := by
  obtain ⟨same, sound', later, yields⟩ := evalBlock_alike evaluates p.statements sound runs
  rcases run : evalBlock ev scope p.statements m with ⟨result, m'⟩
  rw [run] at same sound' later yields
  refine ⟨by simp only [evalProgramBy, ← same, run], ?_, ?_, ?_⟩
  · rcases result with (f | x | _) | v <;> simpa [evalProgramBy, run] using sound'
  · rcases result with (f | x | _) | v <;> simpa [evalProgramBy, run] using later
  · intro a ok
    rcases result with (f | x | _) | v <;> simp only [evalProgramBy, run, Except.ok.injEq] at ok ⊢
    · exact .inr ⟨f, ok.symm⟩
    · cases ok
    · cases ok
    · rw [← ok]
      exact .inl (yields v rfl)

omit evaluates in
theorem defineMacros_alike {macros : ScopeId} (ss : List Stmt) : ∀ {m}, D.sound m → D.runs m macros →
    D.Alike m (defineMacros macros ss) (defineMacros macros ss) (fun _ _ => True) := by
  induction ss with
  | nil =>
      intro m sound _
      exact .pure sound trivial
  | cons s rest inductionHypothesis =>
      intro m sound runs
      unfold defineMacros
      split
      · rename_i name params body _
        have defines : D.Alike m (defineMacro macros name params body)
            (defineMacro macros name params body) (fun _ _ => True) := by
          refine .mapFault _ (.bind (.freshIdentity sound) fun identity m' later sound' _ => ?_)
          have runs' := D.runs_later later runs
          exact .define sound' runs' (D.good_macro (D.encloses_of_runs runs'))
        refine .bind defines fun _ m' later sound' _ => ?_
        exact inductionHypothesis sound' (D.runs_later later runs)
      · refine .bind (inductionHypothesis sound runs) fun _ m' _ sound' _ => ?_
        exact .pure sound' trivial

/-- A macro yields a tree that is good as a quotation. -/
theorem expandCall_alike (name : String) (c : Macro) (args : List Expr) (sound : D.sound m)
    (encloses : D.encloses m c.scope) :
    D.Alike m (expandCall ev name c args) (expandCall ev' name c args) (fun m' n => D.good m' (.quote n)) := by
  unfold expandCall
  split
  · have body : D.Alike m
        (onBehalfOf name do
          let inner ← Eval.newScope (some c.scope)
          Eval.defineAll inner (c.params.zip (args.map (fun e => .quote (.expr e))))
          evalBlock ev inner c.body)
        (onBehalfOf name do
          let inner ← Eval.newScope (some c.scope)
          Eval.defineAll inner (c.params.zip (args.map (fun e => .quote (.expr e))))
          evalBlock ev' inner c.body) D.Outcome := by
      refine .mapFault _ (.bind (.newScope sound encloses) fun inner m' _ sound' runs' => ?_)
      have goodPairs : ∀ pair ∈ c.params.zip (args.map fun e => Value.quote (.expr e)),
          D.good m' pair.2 := by
        intro pair member
        obtain ⟨e, _, isQuote⟩ := List.mem_map.1 (List.of_mem_zip member).2
        rw [← isQuote]
        exact D.good_quote e
      refine .bind (.defineAll _ sound' runs' goodPairs) fun _ m'' later' sound'' _ => ?_
      exact evalBlock_alike evaluates c.body sound'' (D.runs_later later' runs')
    refine .bind body fun v m' _ sound' outcome => ?_
    split
    · rename_i n isQuote
      rw [Outcome, isQuote] at outcome
      exact .pure sound' outcome
    · exact .stop sound' _
  · exact .stop sound _

theorem expandNode_walks {macros : ScopeId} (encloses : D.encloses m macros) (n : Node) :
    D.AlikeFrom m Node (expandNode ev macros n) (expandNode ev' macros n) := by
  intro m' later sound
  unfold expandNode
  split
  · refine .bind (.lookup sound (D.encloses_later later encloses)) fun found m'' _ sound'' good => ?_
    split
    · rename_i c
      refine (expandCall_alike evaluates _ c _ sound'' (D.encloses_macro (good _ rfl))).weaken ?_
      exact fun _ _ _ _ => trivial
    · exact .pure sound'' trivial
  · exact .pure sound trivial

theorem expandMacrosBy_alike {macros : ScopeId} (p : Program) (sound : D.sound m)
    (encloses : D.encloses m macros) :
    D.Alike m (expandMacrosBy ev macros p) (expandMacrosBy ev' macros p) (fun _ _ => True) := by
  have transforms := (D.sequential_alikeFrom m).transform (expandNode_walks evaluates encloses) (.program p)
  refine .bind (transforms m (D.later_refl m) sound) fun n m' _ sound' _ => ?_
  cases n <;> exact .pure sound' trivial

/-- A step of a session that got as far as running keeps the discipline. -/
theorem runProgram_alike {globals macros : ScopeId} (p : Program) (sound : D.sound m)
    (runs : D.runs m globals) (runsMacros : D.runs m macros) :
    D.Alike m (Session.runProgram ev globals macros p) (Session.runProgram ev' globals macros p)
      (fun m' v => D.good m' v ∨ ∃ f, v = .error f) := by
  refine .bind (defineMacros_alike p.statements sound runsMacros) fun kept m' later sound' _ => ?_
  have encloses := D.encloses_of_runs (D.runs_later later runsMacros)
  refine .bind (expandMacrosBy_alike evaluates ⟨kept⟩ sound' encloses) ?_
  intro expanded m'' later' sound'' _
  exact evalProgramBy_alike evaluates expanded sound''
    (D.runs_later (D.later_trans later later') runs)

end Sessions

end Discipline

end Quill
