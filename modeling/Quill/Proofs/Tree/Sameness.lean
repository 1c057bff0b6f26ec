/-
Module: Quill.Proofs.Tree.Sameness
Layer: Proofs
Purpose: Sameness of trees is equality, floating point literals apart. Such a literal is compared as a number, so that
  the two zeros are the same and what is not a number is not the same as itself. A tree in which no such literal occurs
  is the same as itself and as no other tree.
Main exports: Node.isFloat, FloatFree, Node.same_iff_eq
-/
import Quill.Proofs.Tree.Visits

namespace Quill

/-- Whether a tree is a floating point literal. -/
def Node.isFloat : Node → Bool
  | .expr (.float _) => true
  | _ => false

/-- None of the trees is a floating point literal. -/
def FloatFree (ns : List Node) : Prop :=
  ∀ n ∈ ns, n.isFloat = false

theorem floatFree_append {ns others : List Node} : FloatFree (ns ++ others) ↔ FloatFree ns ∧ FloatFree others :=
  List.forall_mem_append

theorem FloatFree.parts {n : Node} (free : FloatFree n.visits) : FloatFree n.parts :=
  (floatFree_append.1 free).1

/-!
### Trees of each kind

The induction is on the first tree. What is visited below it is split as the list of it is put together.
-/

mutual

theorem Expr.same_iff_eq : ∀ e : Expr, FloatFree (Node.expr e).visits → ∀ e', e.same e' = true ↔ e = e'
  | .ident _, _, e' => by cases e' <;> simp [Expr.same]
  | .integer _, _, e' => by cases e' <;> simp [Expr.same]
  | .float x, free, _ => absurd (free (.expr (.float x)) List.mem_cons_self) (by simp [Node.isFloat])
  | .boolean _, _, e' => by cases e' <;> simp [Expr.same]
  | .text _, _, e' => by cases e' <;> simp [Expr.same]
  | .null, _, e' => by cases e' <;> simp [Expr.same]
  | .array items, free, e' => by
      have same := sameExprs_iff_eq items free.parts
      cases e' <;> simp [Expr.same, same]
  | .hash pairs, free, e' => by
      have same := samePairs_iff_eq pairs free.parts
      cases e' <;> simp [Expr.same, same]
  | .unary _ operand, free, e' => by
      have same := operand.same_iff_eq free.parts
      cases e' <;> simp [Expr.same, same]
  | .binary _ left right, free, e' => by
      obtain ⟨first, second⟩ := floatFree_append.1 free.parts
      have sameLeft := left.same_iff_eq first
      have sameRight := right.same_iff_eq second
      cases e' <;> simp [Expr.same, sameLeft, sameRight, and_assoc]
  | .conditional clauses otherwise, free, e' => by
      obtain ⟨first, second⟩ := floatFree_append.1 free.parts
      have sameClauses := sameClauses_iff_eq clauses first
      have sameOtherwise := sameOptionalBlock_iff_eq otherwise second
      cases e' <;> simp [Expr.same, sameClauses, sameOtherwise]
  | .switch subject cases otherwise, free, e' => by
      obtain ⟨first, rest⟩ := floatFree_append.1 free.parts
      obtain ⟨second, third⟩ := floatFree_append.1 rest
      have sameSubject := subject.same_iff_eq first
      have sameCases := sameClauses_iff_eq cases second
      have sameOtherwise := sameOptionalBlock_iff_eq otherwise third
      cases e' <;> simp [Expr.same, sameSubject, sameCases, sameOtherwise, and_assoc]
  | .whileLoop condition body, free, e' => by
      obtain ⟨first, second⟩ := floatFree_append.1 free.parts
      have sameCondition := condition.same_iff_eq first
      have sameBody := sameBlock_iff_eq body (FloatFree.parts (n := .block body) second)
      cases e' <;> simp [Expr.same, sameCondition, sameBody]
  | .forLoop start condition step body, free, e' => by
      obtain ⟨first, rest⟩ := floatFree_append.1 free.parts
      obtain ⟨second, last⟩ := floatFree_append.1 rest
      obtain ⟨third, fourth⟩ := floatFree_append.1 last
      have sameStart := start.same_iff_eq first
      have sameCondition := condition.same_iff_eq second
      have sameStep := step.same_iff_eq third
      have sameBody := sameBlock_iff_eq body (FloatFree.parts (n := .block body) fourth)
      cases e' <;> simp [Expr.same, sameStart, sameCondition, sameStep, sameBody, and_assoc]
  | .function _ params body, free, e' => by
      obtain ⟨_, second⟩ := floatFree_append.1 free.parts
      have sameBody := sameBlock_iff_eq body (FloatFree.parts (n := .block body) second)
      cases e' <;> simp [Expr.same, sameBody, and_assoc]
  | .call callee args, free, e' => by
      obtain ⟨first, second⟩ := floatFree_append.1 free.parts
      have sameCallee := callee.same_iff_eq first
      have sameArgs := sameExprs_iff_eq args second
      cases e' <;> simp [Expr.same, sameCallee, sameArgs]
  | .index subject key, free, e' => by
      obtain ⟨first, second⟩ := floatFree_append.1 free.parts
      have sameSubject := subject.same_iff_eq first
      have sameKey := key.same_iff_eq second
      cases e' <;> simp [Expr.same, sameSubject, sameKey]
  | .macroLiteral params body, free, e' => by
      obtain ⟨_, second⟩ := floatFree_append.1 free.parts
      have sameBody := sameBlock_iff_eq body (FloatFree.parts (n := .block body) second)
      cases e' <;> simp [Expr.same, sameBody]

theorem Stmt.same_iff_eq : ∀ s : Stmt, FloatFree (Node.stmt s).visits → ∀ s', s.same s' = true ↔ s = s'
  | .bind _ value, free, s' => by
      have same := value.same_iff_eq free.parts
      cases s' <;> simp [Stmt.same, same]
  | .bindConst _ value, free, s' => by
      have same := value.same_iff_eq free.parts
      cases s' <;> simp [Stmt.same, same]
  | .assign _ value, free, s' => by
      have same := value.same_iff_eq free.parts
      cases s' <;> simp [Stmt.same, same]
  | .ret value, free, s' => by
      have same := value.same_iff_eq free.parts
      cases s' <;> simp [Stmt.same, same]
  | .expr e, free, s' => by
      have same := e.same_iff_eq free.parts
      cases s' <;> simp [Stmt.same, same]

theorem sameExprs_iff_eq : ∀ es : List Expr, FloatFree (exprParts es) → ∀ es', sameExprs es es' = true ↔ es = es'
  | [], _, es' => by cases es' <;> simp [sameExprs]
  | e :: es, free, es' => by
      obtain ⟨first, rest⟩ := floatFree_append.1 free
      have sameFirst := e.same_iff_eq first
      have sameRest := sameExprs_iff_eq es rest
      cases es' <;> simp [sameExprs, sameFirst, sameRest]

theorem samePairs_iff_eq : ∀ ps : List (Expr × Expr), FloatFree (pairParts ps) →
    ∀ ps', samePairs ps ps' = true ↔ ps = ps'
  | [], _, ps' => by cases ps' <;> simp [samePairs]
  | (key, value) :: ps, free, ps' => by
      obtain ⟨first, others⟩ := floatFree_append.1 free
      obtain ⟨second, rest⟩ := floatFree_append.1 others
      have sameKey := key.same_iff_eq first
      have sameValue := value.same_iff_eq second
      have sameRest := samePairs_iff_eq ps rest
      rcases ps' with _ | ⟨⟨key', value'⟩, ps'⟩ <;> simp [samePairs, sameKey, sameValue, sameRest]

theorem sameClauses_iff_eq : ∀ cs : List (Expr × List Stmt), FloatFree (clauseParts cs) →
    ∀ cs', sameClauses cs cs' = true ↔ cs = cs'
  | [], _, cs' => by cases cs' <;> simp [sameClauses]
  | (guard, body) :: cs, free, cs' => by
      obtain ⟨first, others⟩ := floatFree_append.1 free
      obtain ⟨second, rest⟩ := floatFree_append.1 others
      have sameGuard := guard.same_iff_eq first
      have sameBody := sameBlock_iff_eq body (FloatFree.parts (n := .block body) second)
      have sameRest := sameClauses_iff_eq cs rest
      rcases cs' with _ | ⟨⟨guard', body'⟩, cs'⟩ <;> simp [sameClauses, sameGuard, sameBody, sameRest]

theorem sameOptionalBlock_iff_eq : ∀ b : Option (List Stmt), FloatFree (otherwiseParts b) →
    ∀ b', sameOptionalBlock b b' = true ↔ b = b'
  | none, _, b' => by cases b' <;> simp [sameOptionalBlock]
  | some body, free, b' => by
      have same := sameBlock_iff_eq body (FloatFree.parts (n := .block body) free)
      cases b' <;> simp [sameOptionalBlock, same]

theorem sameBlock_iff_eq : ∀ ss : List Stmt, FloatFree (blockParts ss) → ∀ ss', sameBlock ss ss' = true ↔ ss = ss'
  | [], _, ss' => by cases ss' <;> simp [sameBlock]
  | s :: ss, free, ss' => by
      obtain ⟨first, rest⟩ := floatFree_append.1 free
      have sameFirst := s.same_iff_eq first
      have sameRest := sameBlock_iff_eq ss rest
      cases ss' <;> simp [sameBlock, sameFirst, sameRest]

end

/-- A tree without floating point literals is the same as itself and as no other tree. -/
theorem Node.same_iff_eq {n : Node} (free : FloatFree n.visits) (n' : Node) : n.same n' = true ↔ n = n' := by
  cases n with
  | program p =>
      obtain ⟨ss⟩ := p
      have same := sameBlock_iff_eq ss free.parts
      rcases n' with ⟨⟨ss'⟩⟩ | _ | _ | _ <;> simp [Node.same, same]
  | block b =>
      have same := sameBlock_iff_eq b free.parts
      cases n' <;> simp [Node.same, same]
  | stmt s =>
      have same := s.same_iff_eq free
      cases n' <;> simp [Node.same, same]
  | expr e =>
      have same := e.same_iff_eq free
      cases n' <;> simp [Node.same, same]

end Quill
