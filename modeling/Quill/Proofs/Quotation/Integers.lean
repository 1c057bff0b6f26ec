/-
Module: Quill.Proofs.Quotation.Integers
Layer: Proofs
Purpose: Quotations with spliced integers, as texts. Into a tree of operators over names, integers and marked places, a
  quotation splices integers of either sign. The text of the tree that comes out can be read, as a tree that evaluates
  to the same wherever it is evaluated, unless a negative integer was spliced right behind a minus sign or the smallest
  integer was spliced at all; then it cannot be read.
Main exports: Expr.marksPlace, SplicesIntegers, quotation_fills, Expr.EndsAs, withNegations_endsAs,
  integer_splices_read_back
-/
import Quill.Evaluation
import Quill.Proofs.Rendering.Signs
import Quill.Proofs.Tree.Walk

namespace Quill

/-!
### Splicing integers
-/

/-- Whether an expression is a call that marks a place to splice. -/
def Expr.marksPlace (e : Expr) : Bool :=
  (Node.expr e).unquoted?.isSome

/-- If a tree marks a place, it has one argument, and the value of that is an integer. -/
def Node.HasInteger (ev : Expr → Eval Value) (n : Node) (m : Machine) : Prop :=
  ∀ args, n.unquoted? = some args → ∃ arg value m', args = [arg] ∧ ev arg m = (.ok (.integer value), m')

/-- Every marked place to which the quotation of an expression comes has an integer. -/
def SplicesIntegers (ev : Expr → Eval Value) (e : Expr) (m : Machine) : Prop :=
  ∀ part m', (Walk.ofNode (.expr e)).Reaches (splice ev) m part m' → part.HasInteger ev m'

section Splicing

variable {ev : Expr → Eval Value} {n : Node} {m : Machine}

theorem Node.HasInteger.of_evaluates {arg : Expr} {value : Int64} {m' : Machine}
    (evaluates : ev arg m = (.ok (.integer value), m')) :
    (Node.expr (.call (.ident unquoteName) [arg])).HasInteger ev m := by
  rintro _ ⟨⟩
  exact ⟨arg, value, m', rfl, evaluates⟩

theorem splice_of_integer {args : List Expr} (marked : n.unquoted? = some args) (integer : n.HasInteger ev m) :
    ∃ value m', splice ev n m = (.ok (.expr (.integer value)), m') := by
  obtain ⟨arg, value, m', rfl, evaluates⟩ := integer args marked
  refine ⟨value, m', ?_⟩
  rw [splice, marked]
  exact Eval.bind_of_ok evaluates

theorem splice_answers (integer : n.HasInteger ev m) : ∃ after m', splice ev n m = (.ok after, m') := by
  cases marked : n.unquoted? with
  | none => exact ⟨n, m, splice_of_unquoted_none marked⟩
  | some args =>
      obtain ⟨value, m', answered⟩ := splice_of_integer marked integer
      exact ⟨_, m', answered⟩

end Splicing

/-!
### Filling a tree of operators
-/

/-- Trees of operators over names and integers. -/
abbrev Expr.IsFilled (e : Expr) : Prop :=
  e.BuiltFrom fun leaf => leaf.isAtom = true

/-- Trees of operators over names, integers and marked places. -/
abbrev Expr.IsTemplate (e : Expr) : Prop :=
  e.BuiltFrom fun leaf => leaf.isAtom = true ∨ leaf.marksPlace = true

theorem Expr.IsFilled.unmarked {e : Expr} (filled : e.IsFilled) : (Node.expr e).unquoted? = none := by
  cases filled with
  | leaf isAtom => cases e <;> first | rfl | cases isAtom
  | unary _ _ => rfl
  | binary _ _ _ => rfl

/-- The traversal that makes a quotation, as long as the marked places have integers, ends as asked for. -/
abbrev Fills {α : Type} (ev : Expr → Eval Value) : Walk α → (α → Prop) → Prop :=
  Walk.Ensures (splice ev) (Node.HasInteger ev)

section Filling

variable {ev : Expr → Eval Value} {e : Expr}

/-- Hands a tree around. -/
abbrev asking (part : Node) : Walk Node :=
  .visit part .done

/-- A filled tree is answered with itself, and a marked place with an integer. -/
theorem asking_fills (rebuilt : e.IsFilled ∨ e.marksPlace = true) :
    Fills ev (asking (.expr e)) fun n => ∃ tree, n = .expr tree ∧ tree.IsFilled := by
  refine .visit fun m integer => ?_
  rcases rebuilt with filled | marks
  · exact ⟨_, m, splice_of_unquoted_none filled.unmarked, e, rfl, filled⟩
  · obtain ⟨args, marked⟩ := Option.isSome_iff_exists.1 marks
    obtain ⟨value, m', answered⟩ := splice_of_integer marked integer
    exact ⟨_, m', answered, _, rfl, .leaf rfl⟩

theorem place_fills {parts : Walk Expr} (rebuilds : Fills ev parts fun e' => e'.IsFilled ∨ e'.marksPlace = true) :
    Fills ev (placeExpr asking e parts) Expr.IsFilled := by
  refine .bind rebuilds fun e' rebuilt => .bind (asking_fills rebuilt) ?_
  rintro _ ⟨tree, rfl, filled⟩
  exact .pure filled

/-- The name that marks a place stays, whatever becomes of the arguments. -/
theorem mark_stays (marks : e.marksPlace = true) :
    Fills ev (e.mapParts asking) fun e' => e'.IsFilled ∨ e'.marksPlace = true := by
  obtain ⟨args, marked⟩ := Option.isSome_iff_exists.1 marks
  obtain rfl := Node.expr.inj (Node.eq_call_of_unquoted marked)
  have callee : Fills ev (placeExpr asking (.ident unquoteName) (Expr.mapParts asking (.ident unquoteName)))
      fun e' => e' = .ident unquoteName := by
    rw [Expr.mapParts]
    refine .bind (.pure rfl) ?_
    rintro _ rfl
    have name : Fills ev (asking (.expr (.ident unquoteName))) fun n => n = .expr (.ident unquoteName) :=
      .visit fun m _ => ⟨_, m, splice_of_unquoted_none rfl, rfl⟩
    refine .bind name ?_
    rintro _ rfl
    exact .pure rfl
  rw [Expr.mapParts]
  refine .bind callee ?_
  rintro _ rfl
  exact .bind (.ends (fun n m => splice_answers) _) fun _ _ => .pure (.inr rfl)

/-- The induction is over the operators; a marked place is not filled before it is answered as a whole. -/
theorem parts_fill {t : Expr} (template : t.IsTemplate) :
    Fills ev (t.mapParts asking) fun e => e.IsFilled ∨ e.marksPlace = true := by
  induction template with
  | @leaf e isLeaf =>
      rcases isLeaf with isAtom | marks
      · have childless : e.mapParts asking = pure e := by
          cases e with
          | ident name => rw [Expr.mapParts]
          | integer n => rw [Expr.mapParts]
          | _ => cases isAtom
        rw [childless]
        exact .pure (.inl (.leaf isAtom))
      · exact mark_stays marks
  | unary op _ inductionHypothesis =>
      rw [Expr.mapParts]
      exact .bind (place_fills inductionHypothesis) fun _ filled => .pure (.inl (.unary op filled))
  | binary op _ _ left right =>
      rw [Expr.mapParts]
      refine .bind (place_fills left) fun _ leftFilled => ?_
      exact .bind (place_fills right) fun _ rightFilled => .pure (.inl (.binary op leftFilled rightFilled))

/-- The quotation of a tree of operators in which the marked places have integers is such a tree without marked
    places. -/
theorem quotation_fills {t : Expr} {m : Machine} (template : t.IsTemplate) (integers : SplicesIntegers ev t m) :
    ∃ tree m', quotation ev t m = (.ok (.quote (.expr tree)), m') ∧ tree.IsFilled := by
  have rebuilds : Fills ev (Node.mapParts asking (.expr t))
      fun n => ∃ e, n = .expr e ∧ (e.IsFilled ∨ e.marksPlace = true) :=
    .bind (parts_fill template) fun e rebuilt => .pure ⟨e, rfl, rebuilt⟩
  have transforms : Fills ev (Walk.ofNode (.expr t)) fun n => ∃ tree, n = .expr tree ∧ tree.IsFilled := by
    refine .bind rebuilds ?_
    rintro _ ⟨e, rfl, rebuilt⟩
    exact asking_fills rebuilt
  obtain ⟨_, m', ends, tree, rfl, filled⟩ := transforms m integers
  rw [← transform_eq_run] at ends
  exact ⟨tree, m', Eval.bind_of_ok ends, filled⟩

end Filling

/-!
### Evaluating what was read
-/

/-- From no machine the computation uses its bound up. -/
def Eval.Ends (p : Eval Value) : Prop :=
  ∀ m, (p m).1 ≠ .error .exhausted

/-- From some bound on, evaluating either expression ends, in every scope and from every machine in the same way. -/
def Expr.EndsAs (e e' : Expr) : Prop :=
  ∃ needed, ∀ bound, needed ≤ bound → ∀ scope,
    evalExpr bound e scope = evalExpr bound e' scope ∧ (evalExpr bound e scope).Ends

namespace Eval.Ends

theorem pure (v : Value) : Ends (Pure.pure v) :=
  fun _ => nofun

theorem operand {part : Eval Value} {next : Value → Eval Value} (ends : part.Ends) (goesOn : ∀ v, (next v).Ends) :
    (part.operand next).Ends := by
  intro m
  have inside := ends m
  unfold Eval.operand
  split
  · exact nofun
  · exact goesOn _ _
  · rename_i run
    rwa [run] at inside

theorem ofExcept (result : Except Fault Value) : (Eval.ofExcept result).Ends := by
  cases result <;> exact fun _ => nofun

theorem evalName (scope : ScopeId) (name : String) : (evalName scope name).Ends := by
  intro m
  have looksUp : Eval.lookup scope name m = (.ok (m.store.get? scope name), m) := rfl
  rw [Quill.evalName, Eval.bind_of_ok looksUp]
  cases m.store.get? scope name with
  | some v => exact nofun
  | none => cases Builtin.ofName? name <;> exact nofun

theorem evalBinary {ev : Evaluator} {scope : ScopeId} {left right : Expr} (op : BinaryOp)
    (leftEnds : (ev left scope).Ends) (rightEnds : (ev right scope).Ends) :
    (evalBinary ev scope op left right).Ends := by
  refine leftEnds.operand fun l => ?_
  split
  · exact pure _
  · exact pure _
  · exact rightEnds.operand fun _ => pure _
  · exact rightEnds.operand fun _ => pure _
  · exact rightEnds.operand fun _ => ofExcept _

end Eval.Ends

namespace Expr.EndsAs

variable {e e' left left' right right' : Expr}

/-- The bound of a form is one more than that of its parts. -/
theorem of_parts (needed : Nat) (ends : ∀ bound, needed ≤ bound → ∀ scope,
    evalExpr (bound + 1) e scope = evalExpr (bound + 1) e' scope ∧ (evalExpr (bound + 1) e scope).Ends) :
    e.EndsAs e' := by
  refine ⟨needed + 1, fun bound within => ?_⟩
  cases bound with
  | zero => exact absurd within (Nat.not_succ_le_zero needed)
  | succ bound => exact ends bound (Nat.le_of_succ_le_succ within)

theorem atom (isAtom : e.isAtom = true) : e.EndsAs e := by
  refine of_parts 0 fun bound _ scope => ⟨rfl, ?_⟩
  cases e with
  | ident name => exact .evalName scope name
  | integer n => exact .pure _
  | _ => cases isAtom

/-- The opposite of the opposite is the integer itself, also for the smallest one. -/
theorem negation (n : Int64) : (Expr.unary .negate (.integer (-n))).EndsAs (.integer n) := by
  refine of_parts 1 fun bound within scope => ?_
  obtain ⟨bound, rfl⟩ := Nat.exists_eq_add_of_le' within
  have negates : evalExpr (bound + 2) (.unary .negate (.integer (-n))) scope = Pure.pure (.integer (- -n)) := rfl
  rw [negates, Int64.neg_neg]
  exact ⟨rfl, .pure _⟩

theorem unary (op : UnaryOp) (operand : e.EndsAs e') : (Expr.unary op e).EndsAs (.unary op e') := by
  obtain ⟨needed, ends⟩ := operand
  refine of_parts needed fun bound within scope => ?_
  obtain ⟨same, inside⟩ := ends bound within scope
  constructor
  · show (evalExpr bound e scope).operand _ = (evalExpr bound e' scope).operand _
    rw [same]
  · exact inside.operand fun _ => .ofExcept _

theorem binary (op : BinaryOp) (leftEnds : left.EndsAs left') (rightEnds : right.EndsAs right') :
    (Expr.binary op left right).EndsAs (.binary op left' right') := by
  obtain ⟨leftNeeded, leftEnds⟩ := leftEnds
  obtain ⟨rightNeeded, rightEnds⟩ := rightEnds
  refine of_parts (max leftNeeded rightNeeded) fun bound within scope => ?_
  obtain ⟨sameLeft, leftInside⟩ := leftEnds bound (Nat.le_trans (Nat.le_max_left _ _) within) scope
  obtain ⟨sameRight, rightInside⟩ := rightEnds bound (Nat.le_trans (Nat.le_max_right _ _) within) scope
  constructor
  · show evalBinary (evalExpr bound) scope op left right = evalBinary (evalExpr bound) scope op left' right'
    simp only [evalBinary, sameLeft, sameRight]
  · exact .evalBinary op leftInside rightInside

end Expr.EndsAs

/-- Negations of numbers evaluate to the negative integers that they stand for. -/
theorem withNegations_endsAs {tree : Expr} (filled : tree.IsFilled) : tree.withNegations.EndsAs tree := by
  induction filled with
  | @leaf e isAtom =>
      cases e with
      | ident name => exact .atom isAtom
      | integer n =>
          rw [Expr.withNegations]
          split
          · exact .negation n
          · exact .atom rfl
      | _ => cases isAtom
  | unary op _ operand => exact .unary op operand
  | binary op _ _ left right => exact .binary op left right

/-!
### Main result
-/

/-- If the marked places of a tree of operators have integers, it is quoted as a tree without marked places. If the
    signs in the text of that tree are legible, the text is read as one expression, which evaluates to the same as the
    tree; otherwise the text cannot be read. -/
theorem integer_splices_read_back {bound : Nat} {scope : ScopeId} {t : Expr} {m : Machine} (template : t.IsTemplate)
    (integers : SplicesIntegers (evalExpr bound · scope) t m) :
    ∃ tree m', evalExpr (bound + 1) (.call (.ident quoteName) [t]) scope m = (.ok (.quote (.expr tree)), m') ∧
      (tree.signsLegible = true → ∃ e, parse tree.render = ⟨⟨[.expr e]⟩, []⟩ ∧ e.EndsAs tree) ∧
      (tree.signsLegible = false → (parse tree.render).diagnostics ≠ []) := by
  obtain ⟨tree, m', quotes, filled⟩ := quotation_fills template integers
  refine ⟨tree, m', quotes, fun legible => ?_, diagnostics_of_signsIllegible filled⟩
  exact ⟨tree.withNegations, parse_render_of_signsLegible filled legible, withNegations_endsAs filled⟩

/-- In `unquote(b - 9) ** a - unquote(unquote(b) - 6)`, with 4 for `b`, negative integers come to stand before a power
    and behind a minus sign that has a blank behind it. -/
theorem integer_splices_read_back_beside_operators :
    let mark (e : Expr) : Expr := .call (.ident unquoteName) [e]
    let t : Expr := .binary .subtract (.binary .power (mark (.binary .subtract (.ident "b") (.integer 9))) (.ident "a"))
      (mark (.binary .subtract (mark (.ident "b")) (.integer 6)))
    let tree : Expr := .binary .subtract (.binary .power (.integer (-5)) (.ident "a")) (.integer (-2))
    let m : Machine := ⟨⟨#[⟨none, [("b", ⟨.integer 4, false⟩)]⟩]⟩, 0, .unlimited⟩
    t.IsTemplate ∧ SplicesIntegers (evalExpr 2 · 0) t m ∧
      evalExpr 3 (.call (.ident quoteName) [t]) 0 m = (.ok (.quote (.expr tree)), m) ∧
      tree.render = "((-5 ** a) - -2)" ∧ ∃ e, parse "((-5 ** a) - -2)" = ⟨⟨[.expr e]⟩, []⟩ ∧ e.EndsAs tree := by
  intro mark t tree m
  have template : t.IsTemplate :=
    .binary _ (.binary _ (.leaf (.inr rfl)) (.leaf (.inl rfl))) (.leaf (.inr rfl))
  have integers : SplicesIntegers (evalExpr 2 · 0) t m := by
    -- the place before the power, the place inside the place behind the minus sign, and that place
    iterate 4 refine Walk.forall_reached_visit nofun rfl ?_
    refine Walk.forall_reached_visit (.of_evaluates rfl) rfl ?_
    iterate 5 refine Walk.forall_reached_visit nofun rfl ?_
    refine Walk.forall_reached_visit (.of_evaluates rfl) rfl ?_
    iterate 2 refine Walk.forall_reached_visit nofun rfl ?_
    refine Walk.forall_reached_visit (.of_evaluates rfl) rfl ?_
    exact Walk.forall_reached_visit nofun rfl nofun
  have quotes : evalExpr 3 (.call (.ident quoteName) [t]) 0 m = (.ok (.quote (.expr tree)), m) := rfl
  obtain ⟨_, _, quotes', readable, _⟩ := integer_splices_read_back template integers
  rw [quotes] at quotes'
  cases quotes'
  exact ⟨template, integers, quotes, rfl, readable rfl⟩

/-- With a negative integer behind its minus sign, `-unquote(0 - 5)` is quoted as a tree whose text `(--5)` cannot be
    read. So it is with the digits of `unquote(-9223372036854775807 - 1)`, of which there is no positive integer. -/
theorem negative_splices_unreadable :
    let mark (e : Expr) : Expr := .call (.ident unquoteName) [e]
    let quoting (t : Expr) : Expr := .call (.ident quoteName) [t]
    let negated : Expr := .unary .negate (mark (.binary .subtract (.integer 0) (.integer 5)))
    let smallest : Expr := mark (.binary .subtract (.unary .negate (.integer 9223372036854775807)) (.integer 1))
    (parse "quote(-unquote(0 - 5))" = ⟨⟨[.expr (quoting negated)]⟩, []⟩ ∧ negated.IsTemplate ∧
      (∀ scope m, SplicesIntegers (evalExpr 3 · scope) negated m ∧
        evalExpr 4 (quoting negated) scope m = (.ok (.quote (.expr (.unary .negate (.integer (-5))))), m)) ∧
      (Expr.unary .negate (.integer (-5))).render = "(--5)" ∧ (parse "(--5)").diagnostics ≠ []) ∧
    (parse "quote(unquote(-9223372036854775807 - 1))" = ⟨⟨[.expr (quoting smallest)]⟩, []⟩ ∧ smallest.IsTemplate ∧
      (∀ scope m, SplicesIntegers (evalExpr 3 · scope) smallest m ∧
        evalExpr 4 (quoting smallest) scope m = (.ok (.quote (.expr (.integer Int64.minValue))), m)) ∧
      (Expr.integer Int64.minValue).render = "-9223372036854775808" ∧
      (parse "-9223372036854775808").diagnostics ≠ []) := by
  intro mark quoting negated smallest
  refine ⟨⟨rfl, .unary _ (.leaf (.inr rfl)), fun scope m => ⟨?_, rfl⟩, rfl, ?_⟩,
    ⟨rfl, .leaf (.inr rfl), fun scope m => ⟨?_, rfl⟩, rfl, ?_⟩⟩
  · iterate 4 refine Walk.forall_reached_visit nofun rfl ?_
    refine Walk.forall_reached_visit (.of_evaluates rfl) rfl ?_
    exact Walk.forall_reached_visit nofun rfl nofun
  · decide
  · iterate 5 refine Walk.forall_reached_visit nofun rfl ?_
    exact Walk.forall_reached_visit (.of_evaluates rfl) rfl nofun
  · decide

end Quill
