/-
Module: Quill.Proofs.Tree.Traversal
Layer: Proofs
Purpose: Traversals keep what sequencing keeps. A traversal only hands trees to a function and puts its answers
  together one after another, so every relation between computations that holds of equal answers and is kept
  by sequencing holds of two traversals whose functions are related.
Main exports: Sequential, Sequential.mapParts, Sequential.mapBlock, Sequential.mapNode, Sequential.transform
-/
import Quill.Tree.Traversal

namespace Quill

variable {m m' : Type → Type} [Monad m] [Monad m']

/-- A relation between computations that sequencing keeps. -/
structure Sequential (R : (α : Type) → m α → m' α → Prop) : Prop where
  pure : ∀ {α : Type} (a : α), R α (Pure.pure a) (Pure.pure a)
  bind : ∀ {α β : Type} {p : m α} {p' : m' α} {f : α → m β} {f' : α → m' β},
    R α p p' → (∀ a, R β (f a) (f' a)) → R β (p >>= f) (p' >>= f')

namespace Sequential

variable {R : (α : Type) → m α → m' α → Prop} (sequential : Sequential R)
  {f : Node → m Node} {f' : Node → m' Node} (walks : ∀ n, R Node (f n) (f' n))

include sequential

theorem map {α β : Type} {p : m α} {p' : m' α} (related : R α p p') (g : α → β) :
    R β (p >>= fun a => Pure.pure (g a)) (p' >>= fun a => Pure.pure (g a)) :=
  sequential.bind related fun a => sequential.pure (g a)

include walks

/-!
### Places
-/

theorem placeExpr (before : Expr) {parts : m Expr} {parts' : m' Expr} (related : R Expr parts parts') :
    R Expr (placeExpr f before parts) (placeExpr f' before parts') := by
  refine sequential.bind related fun rebuilt => sequential.bind (walks (.expr rebuilt)) fun after => ?_
  cases after <;> exact sequential.pure _

theorem placeStmt (before : Stmt) {parts : m Stmt} {parts' : m' Stmt} (related : R Stmt parts parts') :
    R Stmt (placeStmt f before parts) (placeStmt f' before parts') := by
  refine sequential.bind related fun rebuilt => sequential.bind (walks (.stmt rebuilt)) fun after => ?_
  cases after <;> exact sequential.pure _

theorem placeBlock (before : Block) {parts : m Block} {parts' : m' Block} (related : R Block parts parts') :
    R Block (placeBlock f before parts) (placeBlock f' before parts') := by
  refine sequential.bind related fun rebuilt => sequential.bind (walks (.block rebuilt)) fun after => ?_
  cases after <;> exact sequential.pure _

theorem placeParams (params : List String) :
    R (List String) (placeParams f params) (placeParams f' params) := by
  induction params with
  | nil => exact sequential.pure []
  | cons before rest inductionHypothesis =>
      refine sequential.bind (walks (.expr (.ident before))) fun after => ?_
      split <;> exact sequential.bind (sequential.pure _) fun first => sequential.map inductionHypothesis _

/-!
### Parts

The induction is on the tree; every place is filled by related computations.
-/

mutual

theorem mapParts : ∀ e : Expr, R Expr (e.mapParts f) (e.mapParts f')
  | .ident _ => sequential.pure _
  | .integer _ => sequential.pure _
  | .float _ => sequential.pure _
  | .boolean _ => sequential.pure _
  | .text _ => sequential.pure _
  | .null => sequential.pure _
  | .array items => sequential.map (mapExprs items) _
  | .hash pairs => sequential.map (mapPairs pairs) _
  | .unary _ operand => sequential.map (sequential.placeExpr walks operand (mapParts operand)) _
  | .binary _ left right =>
      sequential.bind (sequential.placeExpr walks left (mapParts left)) fun _ =>
        sequential.map (sequential.placeExpr walks right (mapParts right)) _
  | .conditional clauses otherwise =>
      sequential.bind (mapClauses clauses) fun _ => sequential.map (mapOtherwise otherwise) _
  | .switch subject cases otherwise =>
      sequential.bind (sequential.placeExpr walks subject (mapParts subject)) fun _ =>
        sequential.bind (mapClauses cases) fun _ => sequential.map (mapOtherwise otherwise) _
  | .whileLoop condition body =>
      sequential.bind (sequential.placeExpr walks condition (mapParts condition)) fun _ =>
        sequential.map (sequential.placeBlock walks body (mapBlock body)) _
  | .forLoop start condition step body =>
      sequential.bind (sequential.placeStmt walks start (mapStmt start)) fun _ =>
        sequential.bind (sequential.placeExpr walks condition (mapParts condition)) fun _ =>
          sequential.bind (sequential.placeStmt walks step (mapStmt step)) fun _ =>
            sequential.map (sequential.placeBlock walks body (mapBlock body)) _
  | .function _ params body =>
      sequential.bind (sequential.placeParams walks params) fun _ =>
        sequential.map (sequential.placeBlock walks body (mapBlock body)) _
  | .call callee args =>
      sequential.bind (sequential.placeExpr walks callee (mapParts callee)) fun _ =>
        sequential.map (mapExprs args) _
  | .index subject key =>
      sequential.bind (sequential.placeExpr walks subject (mapParts subject)) fun _ =>
        sequential.map (sequential.placeExpr walks key (mapParts key)) _
  | .macroLiteral params body =>
      sequential.bind (sequential.placeParams walks params) fun _ =>
        sequential.map (sequential.placeBlock walks body (mapBlock body)) _

theorem mapStmt : ∀ s : Stmt, R Stmt (s.mapParts f) (s.mapParts f')
  | .bind _ value => sequential.map (sequential.placeExpr walks value (mapParts value)) _
  | .bindConst _ value => sequential.map (sequential.placeExpr walks value (mapParts value)) _
  | .assign _ value => sequential.map (sequential.placeExpr walks value (mapParts value)) _
  | .ret value => sequential.map (sequential.placeExpr walks value (mapParts value)) _
  | .expr e => sequential.map (sequential.placeExpr walks e (mapParts e)) _

theorem mapExprs : ∀ es : List Expr, R (List Expr) (Quill.mapExprs f es) (Quill.mapExprs f' es)
  | [] => sequential.pure _
  | e :: es =>
      sequential.bind (sequential.placeExpr walks e (mapParts e)) fun _ => sequential.map (mapExprs es) _

theorem mapPairs : ∀ ps : List (Expr × Expr),
    R (List (Expr × Expr)) (Quill.mapPairs f ps) (Quill.mapPairs f' ps)
  | [] => sequential.pure _
  | (key, value) :: ps =>
      sequential.bind (sequential.placeExpr walks key (mapParts key)) fun _ =>
        sequential.bind (sequential.placeExpr walks value (mapParts value)) fun _ =>
          sequential.map (mapPairs ps) _

theorem mapClauses : ∀ cs : List (Expr × List Stmt),
    R (List (Expr × List Stmt)) (Quill.mapClauses f cs) (Quill.mapClauses f' cs)
  | [] => sequential.pure _
  | (guard, body) :: cs =>
      sequential.bind (sequential.placeExpr walks guard (mapParts guard)) fun _ =>
        sequential.bind (sequential.placeBlock walks body (mapBlock body)) fun _ =>
          sequential.map (mapClauses cs) _

theorem mapOtherwise : ∀ b : Option (List Stmt),
    R (Option (List Stmt)) (Quill.mapOtherwise f b) (Quill.mapOtherwise f' b)
  | none => sequential.pure _
  | some body => sequential.map (sequential.placeBlock walks body (mapBlock body)) _

theorem mapBlock : ∀ ss : List Stmt, R (List Stmt) (Quill.mapBlock f ss) (Quill.mapBlock f' ss)
  | [] => sequential.pure _
  | s :: ss =>
      sequential.bind (sequential.placeStmt walks s (mapStmt s)) fun _ => sequential.map (mapBlock ss) _

end

/-!
### Whole trees
-/

theorem mapNode (n : Node) : R Node (n.mapParts f) (n.mapParts f') := by
  cases n with
  | program p => exact sequential.map (sequential.mapBlock walks p.statements) _
  | block b => exact sequential.map (sequential.mapBlock walks b) _
  | stmt s => exact sequential.map (sequential.mapStmt walks s) _
  | expr e => exact sequential.map (sequential.mapParts walks e) _

theorem transform (n : Node) : R Node (n.transform f) (n.transform f') :=
  sequential.bind (sequential.mapNode walks n) walks

end Sequential

end Quill
