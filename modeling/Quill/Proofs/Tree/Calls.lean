/-
Module: Quill.Proofs.Tree.Calls
Layer: Proofs
Purpose: Which trees a traversal hands to its function. The function may keep a state and answer with anything; a
  traversal that also writes down what it hands over does the same otherwise. What is written down is one tree for each
  tree that is visited, children before parents and from left to right, and each has the same outline as the tree that
  stood there: only its children and the names of its parameters may be others. So the answers have no say in how often
  and in which order the function is called. A function that gives back every tree is handed the trees themselves.
Main exports: Node.children, Node.visits_eq, Node.outline, recording, Node.calls, Recorded, CallsOnce,
  transform_calls_once
-/
import Quill.Proofs.Tree.Visits
import Quill.Tree.Traversal

namespace Quill

/-!
### Children

The children of a tree are the trees directly below it, as they are written. Names that are bound or assigned and the
names of functions are no children.
-/

/-- The children of clauses. -/
def clauseChildren (clauses : List (Expr × Block)) : List Node :=
  clauses.flatMap fun clause => [.expr clause.1, .block clause.2]

/-- The children of an expression. -/
def Expr.children : Expr → List Node
  | .ident _ | .integer _ | .float _ | .boolean _ | .text _ | .null => []
  | .array items => items.map .expr
  | .hash pairs => pairs.flatMap fun pair => [.expr pair.1, .expr pair.2]
  | .unary _ operand => [.expr operand]
  | .binary _ left right => [.expr left, .expr right]
  | .conditional clauses otherwise => clauseChildren clauses ++ otherwise.toList.map .block
  | .switch subject cases otherwise => .expr subject :: (clauseChildren cases ++ otherwise.toList.map .block)
  | .whileLoop condition body => [.expr condition, .block body]
  | .forLoop start condition step body => [.stmt start, .expr condition, .stmt step, .block body]
  | .function _ params body => paramParts params ++ [.block body]
  | .call callee args => .expr callee :: args.map .expr
  | .index subject key => [.expr subject, .expr key]
  | .macroLiteral params body => paramParts params ++ [.block body]

/-- The children of a tree. -/
def Node.children : Node → List Node
  | program p => p.statements.map .stmt
  | block b => b.map .stmt
  | stmt (.bind _ e) | stmt (.bindConst _ e) | stmt (.assign _ e) | stmt (.ret e) | stmt (.expr e) => [.expr e]
  | expr e => e.children

theorem exprParts_eq (es : List Expr) : exprParts es = (es.map Node.expr).flatMap Node.visits := by
  induction es with
  | nil => rfl
  | cons e es inductionHypothesis => rw [exprParts, inductionHypothesis]; rfl

theorem pairParts_eq (ps : List (Expr × Expr)) :
    pairParts ps = (ps.flatMap fun pair => [Node.expr pair.1, Node.expr pair.2]).flatMap Node.visits := by
  induction ps with
  | nil => rfl
  | cons pair ps inductionHypothesis => rw [pairParts, inductionHypothesis]; rfl

theorem blockParts_eq (ss : List Stmt) : blockParts ss = (ss.map Node.stmt).flatMap Node.visits := by
  induction ss with
  | nil => rfl
  | cons s ss inductionHypothesis => rw [blockParts, inductionHypothesis]; rfl

theorem clauseParts_eq (cs : List (Expr × Block)) : clauseParts cs = (clauseChildren cs).flatMap Node.visits := by
  induction cs with
  | nil => rfl
  | cons clause cs inductionHypothesis => rw [clauseParts, inductionHypothesis]; rfl

theorem otherwiseParts_eq (b : Option Block) : otherwiseParts b = (b.toList.map Node.block).flatMap Node.visits := by
  cases b with
  | none => rfl
  | some body => exact (List.append_nil _).symm

theorem paramParts_eq (params : List String) : paramParts params = (paramParts params).flatMap Node.visits := by
  induction params with
  | nil => rfl
  | cons param params inductionHypothesis =>
      show _ = _ :: (paramParts params).flatMap Node.visits
      rw [← inductionHypothesis]
      rfl

theorem Expr.parts_eq (e : Expr) : e.parts = e.children.flatMap Node.visits := by
  cases e with
  | array items => exact exprParts_eq items
  | hash pairs => exact pairParts_eq pairs
  | conditional clauses otherwise =>
      rw [parts, children, List.flatMap_append, clauseParts_eq, otherwiseParts_eq]
  | switch subject cases otherwise =>
      rw [parts, children, List.flatMap_cons, List.flatMap_append, clauseParts_eq, otherwiseParts_eq]
      rfl
  | call callee args =>
      rw [parts, children, List.flatMap_cons, exprParts_eq]
      rfl
  | function name params body =>
      rw [parts, children, List.flatMap_append, ← paramParts_eq]
      exact congrArg _ (List.append_nil _).symm
  | macroLiteral params body =>
      rw [parts, children, List.flatMap_append, ← paramParts_eq]
      exact congrArg _ (List.append_nil _).symm
  | _ => simp [parts, children, Node.visits, Node.parts]

/-- A traversal visits the children from left to right, with all that is below each, and then the tree. -/
theorem Node.visits_eq (n : Node) : n.visits = n.children.flatMap Node.visits ++ [n] := by
  refine congrArg (· ++ [n]) ?_
  cases n with
  | program p => exact blockParts_eq p.statements
  | block b => exact blockParts_eq b
  | stmt s => cases s <;> exact (List.append_nil _).symm
  | expr e => exact e.parts_eq

/-!
### Outlines
-/

/-- An expression with its children taken out and the names of its parameters left blank. -/
def Expr.outline : Expr → Expr
  | .array items => .array (List.replicate items.length .null)
  | .hash pairs => .hash (List.replicate pairs.length (.null, .null))
  | .unary op _ => .unary op .null
  | .binary op _ _ => .binary op .null .null
  | .conditional clauses otherwise =>
    .conditional (List.replicate clauses.length (.null, [])) (otherwise.map fun _ => [])
  | .switch _ cases otherwise => .switch .null (List.replicate cases.length (.null, [])) (otherwise.map fun _ => [])
  | .whileLoop _ _ => .whileLoop .null []
  | .forLoop _ _ _ _ => .forLoop (.expr .null) .null (.expr .null) []
  | .function name params _ => .function name (List.replicate params.length "") []
  | .call _ args => .call .null (List.replicate args.length .null)
  | .index _ _ => .index .null .null
  | .macroLiteral params _ => .macroLiteral (List.replicate params.length "") []
  | e => e

/-- A statement with its expression taken out. -/
def Stmt.outline : Stmt → Stmt
  | .bind name _ => .bind name .null
  | .bindConst name _ => .bindConst name .null
  | .assign name _ => .assign name .null
  | .ret _ => .ret .null
  | .expr _ => .expr .null

/-- A tree with its children taken out and the names of its parameters left blank: its kind and form, its operator,
    its names and literals, and how many children it has in each place. -/
def Node.outline : Node → Node
  | program p => .program ⟨List.replicate p.statements.length (.expr .null)⟩
  | block b => .block (List.replicate b.length (.expr .null))
  | stmt s => .stmt s.outline
  | expr e => .expr e.outline

/-!
### Writing down what is handed over
-/

variable {σ : Type}

/-- Answers as `f` does, and writes down the tree. -/
def recording (f : Node → StateM σ Node) (n : Node) : StateM (σ × List Node) Node :=
  fun (s, log) =>
    let (answer, s') := f n s
    (answer, s', log ++ [n])

/-- The trees that a traversal hands to a function that starts in a state. -/
def Node.calls (f : Node → StateM σ Node) (s : σ) (n : Node) : List Node :=
  (n.transform (recording f) (s, [])).2.2

/-- What is known of the tree, or trees, in some place after a walk: the outline, and everything if the function is
    faithful. -/
structure Kept {α β : Type} (faithful : Prop) (outline : α → β) (before after : α) : Prop where
  outline : outline after = outline before
  exact : faithful → after = before

theorem Kept.refl {α β : Type} {faithful : Prop} (outline : α → β) (a : α) : Kept faithful outline a a :=
  ⟨rfl, fun _ => rfl⟩

/-- Both computations yield the same from the same state; the second one also writes down trees with the outlines of
    the given ones. -/
def Recorded {α β : Type} (faithful : Prop) (ns : List Node) (outline : α → β) (a : α) (p : StateM σ α)
    (p' : StateM (σ × List Node) α) : Prop :=
  ∀ s, ∃ calls, (∀ log, p' (s, log) = ((p s).1, (p s).2, log ++ calls)) ∧
    Kept faithful (List.map Node.outline) ns calls ∧ Kept faithful outline a (p s).1

namespace Recorded

variable {α β γ δ : Type} {faithful : Prop} {ns ns' : List Node} {outline : α → γ} {outline' : β → δ} {a : α} {b : β}
  {p : StateM σ α} {p' : StateM (σ × List Node) α} {q : α → StateM σ β} {q' : α → StateM (σ × List Node) β}

theorem pure {a' : α} (kept : Kept faithful outline a a') :
    Recorded faithful [] outline a (Pure.pure a' : StateM σ α) (Pure.pure a') :=
  fun _ => ⟨[], fun log => by rw [List.append_nil]; rfl, .refl _ _, kept⟩

theorem bind (first : Recorded faithful ns outline a p p')
    (next : ∀ a', Kept faithful outline a a' → Recorded faithful ns' outline' b (q a') (q' a')) :
    Recorded faithful (ns ++ ns') outline' b (p >>= q) (p' >>= q') := by
  intro s
  obtain ⟨calls, run, keptCalls, kept⟩ := first s
  obtain ⟨calls', run', keptCalls', kept'⟩ := next _ kept (p s).2
  refine ⟨calls ++ calls', fun log => ?_, ⟨?_, ?_⟩, kept'⟩
  · have inTurn : (p' >>= q') (s, log) = q' (p' (s, log)).1 (p' (s, log)).2 := rfl
    rw [inTurn, run, run', List.append_assoc]
    rfl
  · rw [List.map_append, List.map_append, keptCalls.outline, keptCalls'.outline]
  · intro isFaithful
    rw [keptCalls.exact isFaithful, keptCalls'.exact isFaithful]

/-- What comes last may hand over nothing. -/
theorem andThen (first : Recorded faithful ns outline a p p')
    (next : ∀ a', Kept faithful outline a a' → Recorded faithful [] outline' b (q a') (q' a')) :
    Recorded faithful ns outline' b (p >>= q) (p' >>= q') := by
  have both := bind first next
  rwa [List.append_nil] at both

theorem map {g : α → β} (first : Recorded faithful ns outline a p p')
    (keeps : ∀ a', Kept faithful outline a a' → Kept faithful outline' b (g a')) :
    Recorded faithful ns outline' b (p >>= fun a => Pure.pure (g a)) (p' >>= fun a => Pure.pure (g a)) :=
  andThen first fun a' kept => pure (keeps a' kept)

end Recorded

/-!
### Places

The outline of what ends up in a place is not known, since the answer of the function may be anything.
-/

/-- A function gives back every tree, in every state. -/
def Faithful (f : Node → StateM σ Node) : Prop :=
  ∀ n s, (f n s).1 = n

section Walks

variable {f : Node → StateM σ Node} {ns : List Node}

/-- The function is handed a tree with the outline of the one that stood there. -/
theorem recorded_call {n rebuilt : Node} (kept : Kept (Faithful f) Node.outline n rebuilt) :
    Recorded (Faithful f) [n] (fun _ => ()) n (f rebuilt) (recording f rebuilt) := by
  intro s
  refine ⟨[rebuilt], fun _ => rfl, ⟨congrArg (fun outline => [outline]) kept.outline, ?_⟩, rfl, ?_⟩
  · intro faithful
    rw [kept.exact faithful]
  · intro faithful
    rw [faithful, kept.exact faithful]

theorem recorded_placeExpr {e : Expr} {parts : StateM σ Expr} {parts' : StateM (σ × List Node) Expr}
    (below : Recorded (Faithful f) ns Expr.outline e parts parts') :
    Recorded (Faithful f) (ns ++ [.expr e]) (fun _ => ()) e (placeExpr f e parts)
      (placeExpr (recording f) e parts') := by
  refine .bind below fun rebuilt kept => ?_
  refine .andThen (recorded_call ⟨congrArg Node.expr kept.outline, fun faithful => by rw [kept.exact faithful]⟩) ?_
  intro answer keptAnswer
  cases answer with
  | expr after => exact .pure ⟨rfl, fun faithful => Node.expr.inj (keptAnswer.exact faithful)⟩
  -- an answer of another kind is dropped, and the place keeps what stood in it
  | _ => exact .pure (.refl _ _)

theorem recorded_placeStmt {s : Stmt} {parts : StateM σ Stmt} {parts' : StateM (σ × List Node) Stmt}
    (below : Recorded (Faithful f) ns Stmt.outline s parts parts') :
    Recorded (Faithful f) (ns ++ [.stmt s]) (fun _ => ()) s (placeStmt f s parts)
      (placeStmt (recording f) s parts') := by
  refine .bind below fun rebuilt kept => ?_
  refine .andThen (recorded_call ⟨congrArg Node.stmt kept.outline, fun faithful => by rw [kept.exact faithful]⟩) ?_
  intro answer keptAnswer
  cases answer with
  | stmt after => exact .pure ⟨rfl, fun faithful => Node.stmt.inj (keptAnswer.exact faithful)⟩
  | _ => exact .pure (.refl _ _)

theorem recorded_placeBlock {b : Block} {parts : StateM σ Block} {parts' : StateM (σ × List Node) Block}
    (below : Recorded (Faithful f) ns List.length b parts parts') :
    Recorded (Faithful f) (ns ++ [.block b]) (fun _ => ()) b (placeBlock f b parts)
      (placeBlock (recording f) b parts') := by
  refine .bind below fun rebuilt kept => ?_
  have outline : (Node.block rebuilt).outline = (Node.block b).outline := by
    rw [Node.outline, Node.outline, kept.outline]
  refine .andThen (recorded_call ⟨outline, fun faithful => by rw [kept.exact faithful]⟩) ?_
  intro answer keptAnswer
  cases answer with
  | block after => exact .pure ⟨rfl, fun faithful => Node.block.inj (keptAnswer.exact faithful)⟩
  | _ => exact .pure (.refl _ _)

theorem recorded_placeParams (params : List String) :
    Recorded (Faithful f) (paramParts params) List.length params (placeParams f params)
      (placeParams (recording f) params) := by
  induction params with
  | nil => exact .pure (.refl _ _)
  | cons before rest inductionHypothesis =>
      have others : ∀ first, (Faithful f → first = before) →
          Recorded (Faithful f) (paramParts rest) List.length (before :: rest)
            (placeParams f rest >>= fun others => pure (first :: others))
            (placeParams (recording f) rest >>= fun others => pure (first :: others)) := by
        intro first keptFirst
        refine .map inductionHypothesis fun names kept => ⟨congrArg (· + 1) kept.outline, fun faithful => ?_⟩
        rw [keptFirst faithful, kept.exact faithful]
      refine .bind (recorded_call (.refl _ (.expr (.ident before)))) fun answer keptAnswer => ?_
      split
      · refine others _ fun faithful => ?_
        exact Expr.ident.inj (Node.expr.inj (keptAnswer.exact faithful))
      · exact others _ fun _ => rfl

/-!
### Parts

The induction is on the tree. The trees that are written down are put together as the walk goes on.
-/

mutual

theorem recorded_mapParts : ∀ e : Expr,
    Recorded (Faithful f) e.parts Expr.outline e (e.mapParts f) (e.mapParts (recording f))
  | .ident _ | .integer _ | .float _ | .boolean _ | .text _ | .null => .pure (.refl _ _)
  | .array items =>
      .map (recorded_mapExprs items) fun _ kept =>
        ⟨by simp only [Expr.outline, kept.outline], fun faithful => by rw [kept.exact faithful]⟩
  | .hash pairs =>
      .map (recorded_mapPairs pairs) fun _ kept =>
        ⟨by simp only [Expr.outline, kept.outline], fun faithful => by rw [kept.exact faithful]⟩
  | .unary _ operand =>
      .map (recorded_placeExpr (recorded_mapParts operand)) fun _ kept =>
        ⟨rfl, fun faithful => by rw [kept.exact faithful]⟩
  | .binary _ left right =>
      .bind (recorded_placeExpr (recorded_mapParts left)) fun _ keptLeft =>
        .map (recorded_placeExpr (recorded_mapParts right)) fun _ keptRight =>
          ⟨rfl, fun faithful => by rw [keptLeft.exact faithful, keptRight.exact faithful]⟩
  | .conditional clauses otherwise =>
      .bind (recorded_mapClauses clauses) fun _ keptClauses =>
        .map (recorded_mapOtherwise otherwise) fun _ keptOtherwise =>
          ⟨by simp only [Expr.outline, keptClauses.outline, keptOtherwise.outline],
            fun faithful => by rw [keptClauses.exact faithful, keptOtherwise.exact faithful]⟩
  | .switch subject cases otherwise =>
      .bind (recorded_placeExpr (recorded_mapParts subject)) fun _ keptSubject =>
        .bind (recorded_mapClauses cases) fun _ keptCases =>
          .map (recorded_mapOtherwise otherwise) fun _ keptOtherwise =>
            ⟨by simp only [Expr.outline, keptCases.outline, keptOtherwise.outline], fun faithful => by
              rw [keptSubject.exact faithful, keptCases.exact faithful, keptOtherwise.exact faithful]⟩
  | .whileLoop condition body =>
      .bind (recorded_placeExpr (recorded_mapParts condition)) fun _ keptCondition =>
        .map (recorded_placeBlock (recorded_mapBlock body)) fun _ keptBody =>
          ⟨rfl, fun faithful => by rw [keptCondition.exact faithful, keptBody.exact faithful]⟩
  | .forLoop start condition step body =>
      .bind (recorded_placeStmt (recorded_mapStmt start)) fun _ keptStart =>
        .bind (recorded_placeExpr (recorded_mapParts condition)) fun _ keptCondition =>
          .bind (recorded_placeStmt (recorded_mapStmt step)) fun _ keptStep =>
            .map (recorded_placeBlock (recorded_mapBlock body)) fun _ keptBody =>
              ⟨rfl, fun faithful => by
                rw [keptStart.exact faithful, keptCondition.exact faithful, keptStep.exact faithful,
                  keptBody.exact faithful]⟩
  | .function _ params body =>
      .bind (recorded_placeParams params) fun _ keptParams =>
        .map (recorded_placeBlock (recorded_mapBlock body)) fun _ keptBody =>
          ⟨by simp only [Expr.outline, keptParams.outline],
            fun faithful => by rw [keptParams.exact faithful, keptBody.exact faithful]⟩
  | .call callee args =>
      .bind (recorded_placeExpr (recorded_mapParts callee)) fun _ keptCallee =>
        .map (recorded_mapExprs args) fun _ keptArgs =>
          ⟨by simp only [Expr.outline, keptArgs.outline],
            fun faithful => by rw [keptCallee.exact faithful, keptArgs.exact faithful]⟩
  | .index subject key =>
      .bind (recorded_placeExpr (recorded_mapParts subject)) fun _ keptSubject =>
        .map (recorded_placeExpr (recorded_mapParts key)) fun _ keptKey =>
          ⟨rfl, fun faithful => by rw [keptSubject.exact faithful, keptKey.exact faithful]⟩
  | .macroLiteral params body =>
      .bind (recorded_placeParams params) fun _ keptParams =>
        .map (recorded_placeBlock (recorded_mapBlock body)) fun _ keptBody =>
          ⟨by simp only [Expr.outline, keptParams.outline],
            fun faithful => by rw [keptParams.exact faithful, keptBody.exact faithful]⟩

theorem recorded_mapStmt : ∀ s : Stmt,
    Recorded (Faithful f) s.parts Stmt.outline s (s.mapParts f) (s.mapParts (recording f))
  | .bind _ e | .bindConst _ e | .assign _ e | .ret e | .expr e =>
      .map (recorded_placeExpr (recorded_mapParts e)) fun _ kept => ⟨rfl, fun faithful => by rw [kept.exact faithful]⟩

theorem recorded_mapExprs : ∀ es : List Expr,
    Recorded (Faithful f) (exprParts es) List.length es (mapExprs f es) (mapExprs (recording f) es)
  | [] => .pure (.refl _ _)
  | e :: es =>
      .bind (recorded_placeExpr (recorded_mapParts e)) fun _ keptFirst =>
        .map (recorded_mapExprs es) fun _ keptRest =>
          ⟨congrArg (· + 1) keptRest.outline,
            fun faithful => by rw [keptFirst.exact faithful, keptRest.exact faithful]⟩

theorem recorded_mapPairs : ∀ ps : List (Expr × Expr),
    Recorded (Faithful f) (pairParts ps) List.length ps (mapPairs f ps) (mapPairs (recording f) ps)
  | [] => .pure (.refl _ _)
  | (key, value) :: ps =>
      .bind (recorded_placeExpr (recorded_mapParts key)) fun _ keptKey =>
        .bind (recorded_placeExpr (recorded_mapParts value)) fun _ keptValue =>
          .map (recorded_mapPairs ps) fun _ keptRest =>
            ⟨congrArg (· + 1) keptRest.outline, fun faithful => by
              rw [keptKey.exact faithful, keptValue.exact faithful, keptRest.exact faithful]⟩

theorem recorded_mapClauses : ∀ cs : List (Expr × Block),
    Recorded (Faithful f) (clauseParts cs) List.length cs (mapClauses f cs) (mapClauses (recording f) cs)
  | [] => .pure (.refl _ _)
  | (guard, body) :: cs =>
      .bind (recorded_placeExpr (recorded_mapParts guard)) fun _ keptGuard =>
        .bind (recorded_placeBlock (recorded_mapBlock body)) fun _ keptBody =>
          .map (recorded_mapClauses cs) fun _ keptRest =>
            ⟨congrArg (· + 1) keptRest.outline, fun faithful => by
              rw [keptGuard.exact faithful, keptBody.exact faithful, keptRest.exact faithful]⟩

theorem recorded_mapOtherwise : ∀ b : Option Block,
    Recorded (Faithful f) (otherwiseParts b) (Option.map fun _ => ([] : Block)) b (mapOtherwise f b)
      (mapOtherwise (recording f) b)
  | none => .pure (.refl _ _)
  | some body =>
      .map (recorded_placeBlock (recorded_mapBlock body)) fun _ kept =>
        ⟨rfl, fun faithful => by rw [kept.exact faithful]⟩

theorem recorded_mapBlock : ∀ ss : List Stmt,
    Recorded (Faithful f) (blockParts ss) List.length ss (mapBlock f ss) (mapBlock (recording f) ss)
  | [] => .pure (.refl _ _)
  | s :: ss =>
      .bind (recorded_placeStmt (recorded_mapStmt s)) fun _ keptFirst =>
        .map (recorded_mapBlock ss) fun _ keptRest =>
          ⟨congrArg (· + 1) keptRest.outline,
            fun faithful => by rw [keptFirst.exact faithful, keptRest.exact faithful]⟩

end

theorem recorded_mapNode (n : Node) :
    Recorded (Faithful f) n.parts Node.outline n (n.mapParts f) (n.mapParts (recording f)) := by
  cases n with
  | program p =>
      refine .map (recorded_mapBlock p.statements) fun _ kept => ⟨?_, fun faithful => by rw [kept.exact faithful]⟩
      simp only [Node.outline, kept.outline]
  | block b =>
      refine .map (recorded_mapBlock b) fun _ kept => ⟨?_, fun faithful => by rw [kept.exact faithful]⟩
      simp only [Node.outline, kept.outline]
  | stmt s =>
      exact .map (recorded_mapStmt s) fun _ kept =>
        ⟨congrArg Node.stmt kept.outline, fun faithful => by rw [kept.exact faithful]⟩
  | expr e =>
      exact .map (recorded_mapParts e) fun _ kept =>
        ⟨congrArg Node.expr kept.outline, fun faithful => by rw [kept.exact faithful]⟩

theorem recorded_transform (n : Node) :
    Recorded (Faithful f) n.visits (fun _ => ()) n (n.transform f) (n.transform (recording f)) :=
  .bind (recorded_mapNode n) fun _ kept => recorded_call kept

end Walks

/-!
### Main result
-/

/-- How a traversal calls a function that starts in a state. -/
structure CallsOnce (f : Node → StateM σ Node) (n : Node) (s : σ) : Prop where
  /-- writing down what is handed over changes nothing else -/
  recorded : ∀ log, n.transform (recording f) (s, log) =
    ((n.transform f s).1, (n.transform f s).2, log ++ n.calls f s)
  /-- one call for each tree that is visited, with a tree of the same outline -/
  outlines : (n.calls f s).map Node.outline = n.visits.map Node.outline
  /-- children from left to right, each with all that is below it, and then the parent -/
  bottomUp : n.visits = n.children.flatMap Node.visits ++ [n]
  faithful : Faithful f → n.calls f s = n.visits ∧ (n.transform f s).1 = n

/-- A traversal calls its function once for each tree that it visits, whatever the answers are. -/
theorem transform_calls_once (f : Node → StateM σ Node) (n : Node) (s : σ) : CallsOnce f n s := by
  obtain ⟨calls, run, keptCalls, kept⟩ := recorded_transform (f := f) n s
  obtain rfl : n.calls f s = calls := by
    rw [Node.calls, run]
    rfl
  exact ⟨run, keptCalls.outline, n.visits_eq, fun faithful => ⟨keptCalls.exact faithful, kept.exact faithful⟩⟩

end Quill
