/-
Module: Quill.Proofs.Tree.Rewriting
Layer: Proofs
Purpose: Rewriting trees by a rule. A rule says what is put in the place of an expression, given the expression and the
  same expression with its parts rewritten; everything else is rebuilt around the rewritten expressions. A traversal
  whose function answers every rebuilt tree as the rule does yields the rewritten tree, whatever the function would do
  with other trees. That is so for every notion of yielding that sequencing keeps, such as yielding a value from a
  given state without changing the state. By the rule that keeps what was rebuilt, a tree is rewritten to itself.
Main exports: Rule, Expr.rebuild, Expr.rewrite, Node.rewrite, Program.rewrite, Certain, Certain.rewrite,
  Certain.rewrite_program, Certain.transform_program
-/
import Quill.Tree.Traversal
import Quill.Proofs.Tree.Visits

namespace Quill

/-- What is put in the place of an expression, given the expression as it stood there and the same expression with its
    parts rewritten. Names stay, since parameters are names. -/
structure Rule where
  put : Expr → Expr → Expr
  keepsNames : ∀ name, put (.ident name) (.ident name) = .ident name

/-!
### Rewriting
-/

section Rewriting

variable (rule : Rule)

mutual

/-- An expression with its parts rewritten. -/
def Expr.rebuild : Expr → Expr
  | .ident name => .ident name
  | .integer n => .integer n
  | .float x => .float x
  | .boolean b => .boolean b
  | .text content => .text content
  | .null => .null
  | .array items => .array (rebuildExprs items)
  | .hash pairs => .hash (rebuildPairs pairs)
  | .unary op operand => .unary op (rule.put operand operand.rebuild)
  | .binary op left right => .binary op (rule.put left left.rebuild) (rule.put right right.rebuild)
  | .conditional clauses otherwise => .conditional (rebuildClauses clauses) (rebuildOtherwise otherwise)
  | .switch subject cases otherwise =>
    .switch (rule.put subject subject.rebuild) (rebuildClauses cases) (rebuildOtherwise otherwise)
  | .whileLoop condition body => .whileLoop (rule.put condition condition.rebuild) (rebuildBlock body)
  | .forLoop start condition step body =>
    .forLoop start.rebuild (rule.put condition condition.rebuild) step.rebuild (rebuildBlock body)
  | .function name params body => .function name params (rebuildBlock body)
  | .call callee args => .call (rule.put callee callee.rebuild) (rebuildExprs args)
  | .index subject key => .index (rule.put subject subject.rebuild) (rule.put key key.rebuild)
  | .macroLiteral params body => .macroLiteral params (rebuildBlock body)
termination_by structural e => e

/-- A statement with its expression rewritten. -/
def Stmt.rebuild : Stmt → Stmt
  | .bind name value => .bind name (rule.put value value.rebuild)
  | .bindConst name value => .bindConst name (rule.put value value.rebuild)
  | .assign name value => .assign name (rule.put value value.rebuild)
  | .ret value => .ret (rule.put value value.rebuild)
  | .expr e => .expr (rule.put e e.rebuild)
termination_by structural s => s

/-- Rewritten expressions. -/
def rebuildExprs : List Expr → List Expr
  | [] => []
  | e :: es => rule.put e e.rebuild :: rebuildExprs es
termination_by structural es => es

/-- Rewritten entries of a hash. -/
def rebuildPairs : List (Expr × Expr) → List (Expr × Expr)
  | [] => []
  | (key, value) :: ps => (rule.put key key.rebuild, rule.put value value.rebuild) :: rebuildPairs ps
termination_by structural ps => ps

/-- Rewritten guarded blocks. -/
def rebuildClauses : List (Expr × List Stmt) → List (Expr × List Stmt)
  | [] => []
  | (guard, body) :: cs => (rule.put guard guard.rebuild, rebuildBlock body) :: rebuildClauses cs
termination_by structural cs => cs

/-- A rewritten block, if there is one. -/
def rebuildOtherwise : Option (List Stmt) → Option (List Stmt)
  | none => none
  | some body => some (rebuildBlock body)
termination_by structural b => b

/-- A block with its statements rewritten. -/
def rebuildBlock : List Stmt → List Stmt
  | [] => []
  | s :: ss => s.rebuild :: rebuildBlock ss
termination_by structural ss => ss

end

/-- An expression rewritten by a rule. -/
def Expr.rewrite (e : Expr) : Expr :=
  rule.put e (e.rebuild rule)

/-- A program rewritten by a rule. -/
def Program.rewrite (p : Program) : Program :=
  ⟨rebuildBlock rule p.statements⟩

/-- A tree with its parts rewritten. -/
def Node.rebuild : Node → Node
  | program p => .program (p.rewrite rule)
  | block b => .block (rebuildBlock rule b)
  | stmt s => .stmt (s.rebuild rule)
  | expr e => .expr (e.rebuild rule)

/-- A tree rewritten by a rule. -/
def Node.rewrite : Node → Node
  | expr e => .expr (e.rewrite rule)
  | n => n.rebuild rule

theorem rebuildExprs_eq_map (es : List Expr) : rebuildExprs rule es = es.map (Expr.rewrite rule) := by
  induction es with
  | nil => rfl
  | cons e es inductionHypothesis => rw [rebuildExprs, inductionHypothesis, List.map_cons, Expr.rewrite]

variable {rule}

theorem Expr.eq_ident_of_rebuild {e : Expr} {name : String} (isName : e.rebuild rule = .ident name) :
    e = .ident name := by
  cases e with
  | ident other => exact isName
  | _ => cases isName

theorem Expr.eq_call_of_rebuild {e callee' : Expr} {args' : List Expr} (isCall : e.rebuild rule = .call callee' args') :
    ∃ callee args, e = .call callee args ∧ callee.rewrite rule = callee' ∧ args.map (Expr.rewrite rule) = args' := by
  cases e with
  | call callee args =>
      rw [rebuild, rebuildExprs_eq_map] at isCall
      injection isCall with sameCallee sameArgs
      exact ⟨callee, args, rfl, sameCallee, sameArgs⟩
  | _ => cases isCall

end Rewriting

/-!
### The rule that keeps what was rebuilt
-/

/-- The rule that keeps what was rebuilt. -/
def Rule.keep : Rule where
  put _ rebuilt := rebuilt
  keepsNames _ := rfl

mutual

theorem Expr.rebuild_keep : ∀ e : Expr, e.rebuild Rule.keep = e
  | .ident _ | .integer _ | .float _ | .boolean _ | .text _ | .null => rfl
  | .array items => by rw [Expr.rebuild, rebuildExprs_keep items]
  | .hash pairs => by rw [Expr.rebuild, rebuildPairs_keep pairs]
  | .unary _ operand => by rw [Expr.rebuild, operand.rebuild_keep, Rule.keep]
  | .binary _ left right => by rw [Expr.rebuild, left.rebuild_keep, right.rebuild_keep, Rule.keep]
  | .conditional clauses otherwise => by
      rw [Expr.rebuild, rebuildClauses_keep clauses, rebuildOtherwise_keep otherwise]
  | .switch subject cases otherwise => by
      rw [Expr.rebuild, subject.rebuild_keep, rebuildClauses_keep cases, rebuildOtherwise_keep otherwise, Rule.keep]
  | .whileLoop condition body => by rw [Expr.rebuild, condition.rebuild_keep, rebuildBlock_keep body, Rule.keep]
  | .forLoop start condition step body => by
      rw [Expr.rebuild, start.rebuild_keep, condition.rebuild_keep, step.rebuild_keep, rebuildBlock_keep body, Rule.keep]
  | .function _ _ body => by rw [Expr.rebuild, rebuildBlock_keep body]
  | .call callee args => by rw [Expr.rebuild, callee.rebuild_keep, rebuildExprs_keep args, Rule.keep]
  | .index subject key => by rw [Expr.rebuild, subject.rebuild_keep, key.rebuild_keep, Rule.keep]
  | .macroLiteral _ body => by rw [Expr.rebuild, rebuildBlock_keep body]

theorem Stmt.rebuild_keep : ∀ s : Stmt, s.rebuild Rule.keep = s
  | .bind _ value => by rw [Stmt.rebuild, value.rebuild_keep, Rule.keep]
  | .bindConst _ value => by rw [Stmt.rebuild, value.rebuild_keep, Rule.keep]
  | .assign _ value => by rw [Stmt.rebuild, value.rebuild_keep, Rule.keep]
  | .ret value => by rw [Stmt.rebuild, value.rebuild_keep, Rule.keep]
  | .expr e => by rw [Stmt.rebuild, e.rebuild_keep, Rule.keep]

theorem rebuildExprs_keep : ∀ es : List Expr, rebuildExprs Rule.keep es = es
  | [] => rfl
  | e :: es => by rw [rebuildExprs, e.rebuild_keep, rebuildExprs_keep es, Rule.keep]

theorem rebuildPairs_keep : ∀ ps : List (Expr × Expr), rebuildPairs Rule.keep ps = ps
  | [] => rfl
  | (key, value) :: ps => by
      rw [rebuildPairs, key.rebuild_keep, value.rebuild_keep, rebuildPairs_keep ps, Rule.keep]

theorem rebuildClauses_keep : ∀ cs : List (Expr × List Stmt), rebuildClauses Rule.keep cs = cs
  | [] => rfl
  | (guard, body) :: cs => by
      rw [rebuildClauses, guard.rebuild_keep, rebuildBlock_keep body, rebuildClauses_keep cs, Rule.keep]

theorem rebuildOtherwise_keep : ∀ b : Option (List Stmt), rebuildOtherwise Rule.keep b = b
  | none => rfl
  | some body => by rw [rebuildOtherwise, rebuildBlock_keep body]

theorem rebuildBlock_keep : ∀ ss : List Stmt, rebuildBlock Rule.keep ss = ss
  | [] => rfl
  | s :: ss => by rw [rebuildBlock, s.rebuild_keep, rebuildBlock_keep ss]

end

theorem Node.rebuild_keep (n : Node) : n.rebuild Rule.keep = n := by
  cases n with
  | program p => rw [rebuild, Program.rewrite, rebuildBlock_keep]
  | block b => rw [rebuild, rebuildBlock_keep]
  | stmt s => rw [rebuild, s.rebuild_keep]
  | expr e => rw [rebuild, e.rebuild_keep]

theorem Node.rewrite_keep (n : Node) : n.rewrite Rule.keep = n := by
  cases n with
  | expr e => rw [rewrite, Expr.rewrite, e.rebuild_keep, Rule.keep]
  | program p => exact (program p).rebuild_keep
  | block b => exact (block b).rebuild_keep
  | stmt s => exact (stmt s).rebuild_keep

/-!
### Yielding for sure
-/

section Yielding

variable {m : Type → Type} [Monad m]

/-- A notion of what a computation yields that sequencing keeps. -/
structure Certain (Y : (α : Type) → m α → α → Prop) : Prop where
  pure : ∀ {α : Type} (a : α), Y α (Pure.pure a) a
  bind : ∀ {α β : Type} {p : m α} {f : α → m β} {a : α} {b : β}, Y α p a → Y β (f a) b → Y β (p >>= f) b

namespace Certain

variable {Y : (α : Type) → m α → α → Prop} (certain : Certain Y)

include certain

theorem map {α β : Type} {p : m α} {a : α} (yields : Y α p a) (g : α → β) :
    Y β (p >>= fun x => Pure.pure (g x)) (g a) :=
  certain.bind yields (certain.pure (g a))

end Certain

/-- A function answers a rebuilt tree as a rule does. -/
def Answers (Y : (α : Type) → m α → α → Prop) (f : Node → m Node) (rule : Rule) (n : Node) : Prop :=
  Y Node (f (n.rebuild rule)) (n.rewrite rule)

namespace Certain

variable {Y : (α : Type) → m α → α → Prop} (certain : Certain Y) {f : Node → m Node} {rule : Rule}

include certain

/-!
### Places

A place gets what the rule puts there if the function answers so.
-/

theorem placeExpr {e : Expr} {ns : List Node} {parts : m Expr}
    (below : (∀ n ∈ ns, Answers Y f rule n) → Y Expr parts (e.rebuild rule))
    (answers : ∀ n ∈ ns ++ [.expr e], Answers Y f rule n) : Y Expr (placeExpr f e parts) (e.rewrite rule) := by
  obtain ⟨parts, here⟩ := List.forall_mem_append.1 answers
  exact certain.bind (below parts) (certain.bind (here _ List.mem_cons_self) (certain.pure _))

theorem placeStmt {s : Stmt} {ns : List Node} {parts : m Stmt}
    (below : (∀ n ∈ ns, Answers Y f rule n) → Y Stmt parts (s.rebuild rule))
    (answers : ∀ n ∈ ns ++ [.stmt s], Answers Y f rule n) : Y Stmt (placeStmt f s parts) (s.rebuild rule) := by
  obtain ⟨parts, here⟩ := List.forall_mem_append.1 answers
  exact certain.bind (below parts) (certain.bind (here _ List.mem_cons_self) (certain.pure _))

theorem placeBlock {b : Block} {ns : List Node} {parts : m Block}
    (below : (∀ n ∈ ns, Answers Y f rule n) → Y Block parts (rebuildBlock rule b))
    (answers : ∀ n ∈ ns ++ [.block b], Answers Y f rule n) : Y Block (placeBlock f b parts) (rebuildBlock rule b) := by
  obtain ⟨parts, here⟩ := List.forall_mem_append.1 answers
  exact certain.bind (below parts) (certain.bind (here _ List.mem_cons_self) (certain.pure _))

theorem placeParams (params : List String) (answers : ∀ n ∈ paramParts params, Answers Y f rule n) :
    Y (List String) (placeParams f params) params := by
  induction params with
  | nil => exact certain.pure []
  | cons param rest inductionHypothesis =>
      obtain ⟨first, others⟩ := List.forall_mem_cons.1 answers
      have keeps : Y Node (f (.expr (.ident param))) (.expr (.ident param)) := by
        rw [Answers, Node.rewrite, Expr.rewrite, Expr.rebuild, rule.keepsNames] at first
        exact first
      exact certain.bind keeps (certain.bind (certain.pure param)
        (certain.map (inductionHypothesis others) _))

/-!
### Parts

The induction is on the tree. The answers for the trees below it are split as the list of them is put together.
-/

mutual

theorem mapParts : ∀ e : Expr, (∀ n ∈ e.parts, Answers Y f rule n) → Y Expr (e.mapParts f) (e.rebuild rule)
  | .ident _, _ => certain.pure _
  | .integer _, _ => certain.pure _
  | .float _, _ => certain.pure _
  | .boolean _, _ => certain.pure _
  | .text _, _ => certain.pure _
  | .null, _ => certain.pure _
  | .array items, answers => certain.map (mapExprs items answers) _
  | .hash pairs, answers => certain.map (mapPairs pairs answers) _
  | .unary _ operand, answers => certain.map (certain.placeExpr (mapParts operand) answers) _
  | .binary _ left right, answers =>
      have ⟨first, second⟩ := List.forall_mem_append.1 answers
      certain.bind (certain.placeExpr (mapParts left) first)
        (certain.map (certain.placeExpr (mapParts right) second) _)
  | .conditional clauses otherwise, answers =>
      have ⟨first, second⟩ := List.forall_mem_append.1 answers
      certain.bind (mapClauses clauses first) (certain.map (mapOtherwise otherwise second) _)
  | .switch subject cases otherwise, answers =>
      have ⟨first, rest⟩ := List.forall_mem_append.1 answers
      have ⟨second, third⟩ := List.forall_mem_append.1 rest
      certain.bind (certain.placeExpr (mapParts subject) first)
        (certain.bind (mapClauses cases second) (certain.map (mapOtherwise otherwise third) _))
  | .whileLoop condition body, answers =>
      have ⟨first, second⟩ := List.forall_mem_append.1 answers
      certain.bind (certain.placeExpr (mapParts condition) first)
        (certain.map (certain.placeBlock (mapBlock body) second) _)
  | .forLoop start condition step body, answers =>
      have ⟨first, rest⟩ := List.forall_mem_append.1 answers
      have ⟨second, last⟩ := List.forall_mem_append.1 rest
      have ⟨third, fourth⟩ := List.forall_mem_append.1 last
      certain.bind (certain.placeStmt (mapStmt start) first)
        (certain.bind (certain.placeExpr (mapParts condition) second)
          (certain.bind (certain.placeStmt (mapStmt step) third)
            (certain.map (certain.placeBlock (mapBlock body) fourth) _)))
  | .function _ params body, answers =>
      have ⟨first, second⟩ := List.forall_mem_append.1 answers
      certain.bind (certain.placeParams params first)
        (certain.map (certain.placeBlock (mapBlock body) second) _)
  | .call callee args, answers =>
      have ⟨first, second⟩ := List.forall_mem_append.1 answers
      certain.bind (certain.placeExpr (mapParts callee) first) (certain.map (mapExprs args second) _)
  | .index subject key, answers =>
      have ⟨first, second⟩ := List.forall_mem_append.1 answers
      certain.bind (certain.placeExpr (mapParts subject) first)
        (certain.map (certain.placeExpr (mapParts key) second) _)
  | .macroLiteral params body, answers =>
      have ⟨first, second⟩ := List.forall_mem_append.1 answers
      certain.bind (certain.placeParams params first)
        (certain.map (certain.placeBlock (mapBlock body) second) _)

theorem mapStmt : ∀ s : Stmt, (∀ n ∈ s.parts, Answers Y f rule n) → Y Stmt (s.mapParts f) (s.rebuild rule)
  | .bind _ value, answers => certain.map (certain.placeExpr (mapParts value) answers) _
  | .bindConst _ value, answers => certain.map (certain.placeExpr (mapParts value) answers) _
  | .assign _ value, answers => certain.map (certain.placeExpr (mapParts value) answers) _
  | .ret value, answers => certain.map (certain.placeExpr (mapParts value) answers) _
  | .expr e, answers => certain.map (certain.placeExpr (mapParts e) answers) _

theorem mapExprs : ∀ es : List Expr, (∀ n ∈ exprParts es, Answers Y f rule n) →
    Y (List Expr) (Quill.mapExprs f es) (rebuildExprs rule es)
  | [], _ => certain.pure _
  | e :: es, answers =>
      have ⟨first, rest⟩ := List.forall_mem_append.1 answers
      certain.bind (certain.placeExpr (mapParts e) first) (certain.map (mapExprs es rest) _)

theorem mapPairs : ∀ ps : List (Expr × Expr), (∀ n ∈ pairParts ps, Answers Y f rule n) →
    Y (List (Expr × Expr)) (Quill.mapPairs f ps) (rebuildPairs rule ps)
  | [], _ => certain.pure _
  | (key, value) :: ps, answers =>
      have ⟨first, others⟩ := List.forall_mem_append.1 answers
      have ⟨second, rest⟩ := List.forall_mem_append.1 others
      certain.bind (certain.placeExpr (mapParts key) first)
        (certain.bind (certain.placeExpr (mapParts value) second) (certain.map (mapPairs ps rest) _))

theorem mapClauses : ∀ cs : List (Expr × List Stmt), (∀ n ∈ clauseParts cs, Answers Y f rule n) →
    Y (List (Expr × List Stmt)) (Quill.mapClauses f cs) (rebuildClauses rule cs)
  | [], _ => certain.pure _
  | (guard, body) :: cs, answers =>
      have ⟨first, others⟩ := List.forall_mem_append.1 answers
      have ⟨second, rest⟩ := List.forall_mem_append.1 others
      certain.bind (certain.placeExpr (mapParts guard) first)
        (certain.bind (certain.placeBlock (mapBlock body) second) (certain.map (mapClauses cs rest) _))

theorem mapOtherwise : ∀ b : Option (List Stmt), (∀ n ∈ otherwiseParts b, Answers Y f rule n) →
    Y (Option (List Stmt)) (Quill.mapOtherwise f b) (rebuildOtherwise rule b)
  | none, _ => certain.pure _
  | some body, answers => certain.map (certain.placeBlock (mapBlock body) answers) _

theorem mapBlock : ∀ ss : List Stmt, (∀ n ∈ blockParts ss, Answers Y f rule n) →
    Y (List Stmt) (Quill.mapBlock f ss) (rebuildBlock rule ss)
  | [], _ => certain.pure _
  | s :: ss, answers =>
      have ⟨first, rest⟩ := List.forall_mem_append.1 answers
      certain.bind (certain.placeStmt (mapStmt s) first) (certain.map (mapBlock ss rest) _)

end

/-!
### Whole trees
-/

/-- A traversal whose function answers every tree that it visits as the rule does yields the rewritten tree. -/
theorem rewrite (n : Node) (answers : ∀ part ∈ n.visits, Answers Y f rule part) :
    Y Node (n.transform f) (n.rewrite rule) := by
  obtain ⟨parts, here⟩ := List.forall_mem_append.1 answers
  refine certain.bind ?_ (here n List.mem_cons_self)
  cases n with
  | program p => exact certain.map (certain.mapBlock p.statements parts) _
  | block b => exact certain.map (certain.mapBlock b parts) _
  | stmt s => exact certain.map (certain.mapStmt s parts) _
  | expr e => exact certain.map (certain.mapParts e parts) _

theorem rewrite_program (p : Program) (answers : ∀ part ∈ p.visits, Answers Y f rule part) :
    Y Program (p.transform f) (p.rewrite rule) :=
  certain.bind (certain.rewrite (.program p) answers) (certain.pure _)

/-- A traversal that yields every tree that it visits yields the whole tree. -/
theorem transform_program (p : Program) (yields : ∀ part ∈ p.visits, Y Node (f part) part) :
    Y Program (p.transform f) p := by
  have answers : ∀ part ∈ p.visits, Answers Y f Rule.keep part := by
    intro part visited
    rw [Answers, Node.rebuild_keep, Node.rewrite_keep]
    exact yields part visited
  have rewritten := certain.rewrite_program p answers
  rwa [Program.rewrite, rebuildBlock_keep] at rewritten

end Certain

end Yielding

end Quill
