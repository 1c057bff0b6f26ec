/-
Module: Quill.Proofs.Quotation.Returns
Layer: Proofs
Purpose: Pending returns in quotations. Every other form hands on a pending return that it meets in a part, but a
  quotation only asks for the tree that the value of a marked place stands for, and a pending return stands for none. So
  the call that marks the place is left in the tree, the return is forgotten, and the places behind it are evaluated as
  if nothing had happened. What a quotation yields is always a quotation.
Main exports: splice_of_returned, quotation_eq_quote, return_forgotten_in_quotation
-/
import Quill.Parser
import Quill.Evaluation
import Quill.Proofs.Tree.Walk

namespace Quill

/-- The call that marks a place to splice. -/
def Expr.marking (arg : Expr) : Expr :=
  .call (.ident unquoteName) [arg]

section Quotations

variable {ev : Expr → Eval Value} {e arg : Expr} {v : Value} {m m' : Machine}

/-- A place whose value is a pending return keeps the call that marks it. -/
theorem splice_of_returned (returns : ev arg m = (.ok (.returned v), m')) :
    splice ev (.expr arg.marking) m = (.ok (.expr arg.marking), m') :=
  Eval.bind_of_ok returns

/-- A quotation that does not stop yields a quotation. -/
theorem quotation_eq_quote (ends : quotation ev e m = (.ok v, m')) : ∃ n, v = .quote n := by
  rcases walked : (Node.expr e).transform (splice ev) m with ⟨stop | n, m₁⟩
  · have stops : quotation ev e m = (.error stop, m₁) := Eval.bind_of_error walked
    rw [stops] at ends
    cases ends
  · have quotes : quotation ev e m = (.ok (.quote n), m₁) := Eval.bind_of_ok walked
    rw [quotes] at ends
    cases ends
    exact ⟨n, rfl⟩

end Quotations

/-!
### Main result
-/

/-- If a quotation comes to a marked place whose value is a pending return, it goes on from there with the call that
    marks the place as the answer. It never yields a pending return. -/
theorem return_forgotten_in_quotation {ev : Evaluator} {call : Caller} {rounds : Nat} {scope : ScopeId} {e arg : Expr}
    {v : Value} {next : Node → Walk Node} {m m' m'' : Machine}
    (comes : (Walk.ofNode (.expr e)).ComesTo (splice (ev · scope)) m (.expr arg.marking) next m')
    (returns : ev arg scope m' = (.ok (.returned v), m'')) :
    evalForm ev call rounds scope (.call (.ident quoteName) [e]) m =
        ((next (.expr arg.marking)).run (splice (ev · scope)) >>= fun n => pure (.quote n)) m'' ∧
      ∀ w m₃, evalForm ev call rounds scope (.call (.ident quoteName) [e]) m ≠ (.ok (.returned w), m₃) := by
  have quotes : evalForm ev call rounds scope (.call (.ident quoteName) [e]) m = quotation (ev · scope) e m := rfl
  have goesOn : (Node.expr e).transform (splice (ev · scope)) m =
      (next (.expr arg.marking)).run (splice (ev · scope)) m'' := by
    rw [transform_eq_run]
    exact comes.run_eq (splice_of_returned returns)
  rw [quotes]
  constructor
  · show Eval.andThen _ _ _ = Eval.andThen _ _ _
    simp only [Eval.andThen, goesOn]
  · intro w m₃ ends
    obtain ⟨n, isQuote⟩ := quotation_eq_quote ends
    cases isQuote

/-- In `quote([unquote(if (true) { return 7 }), unquote(fn() {})])` the function is made although a return was pending
    by then. -/
theorem return_forgotten_in_quotation_before_function :
    let leaving : Expr := .conditional [(.boolean true, [.ret (.integer 7)])] none
    let making : Expr := .function none [] []
    let form : Expr := .call (.ident quoteName) [.array [leaving.marking, making.marking]]
    evalExpr 3 leaving 0 (Machine.start .unlimited) = (.ok (.returned (.integer 7)), Machine.start .unlimited) ∧
      evalExpr 4 form 0 (Machine.start .unlimited) =
        (.ok (.quote (.expr (.array [leaving.marking, making.marking]))), ⟨Store.empty, 1, .unlimited⟩) ∧
      ∀ w m, evalExpr 4 form 0 (Machine.start .unlimited) ≠ (.ok (.returned w), m) := by
  intro leaving making form
  have comes : (Walk.ofNode (.expr (.array [leaving.marking, making.marking]))).ComesTo (splice (evalExpr 3 · 0))
      (Machine.start .unlimited) (.expr leaving.marking) _ (Machine.start .unlimited) :=
    .later rfl (.later rfl (.later rfl (.later rfl (.later rfl (.later rfl .here)))))
  refine ⟨rfl, ?_, ?_⟩
  · exact (return_forgotten_in_quotation comes rfl).1.trans rfl
  · exact (return_forgotten_in_quotation comes rfl).2

/-- The function in `fn() { quote(unquote(if (true) { return 7 })); 2 }()` is not left by its `return`: the return is
    pending in every scope and machine, the quotation is evaluated to itself, and the program to 2. -/
theorem return_in_unquote_leaves_nothing :
    let leaving : Expr := .conditional [(.boolean true, [.ret (.integer 7)])] none
    let form : Expr := .call (.ident quoteName) [leaving.marking]
    let p : Program := ⟨[.expr (.call (.function none [] [.expr form, .expr (.integer 2)]) [])]⟩
    parse "fn() { quote(unquote(if (true) { return 7 })); 2 }()" = ⟨p, []⟩ ∧
      (∀ scope m, (evalExpr 3 leaving scope m).1 = .ok (.returned (.integer 7))) ∧
      (∀ scope m, (evalExpr 4 form scope m).1 = .ok (.quote (.expr leaving.marking))) ∧
      (evalProgram 7 p 0 (Machine.start .unlimited)).1 = .ok (.integer 2) :=
  ⟨rfl, fun _ _ => rfl, fun _ _ => rfl, rfl⟩

end Quill
