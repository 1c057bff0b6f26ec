/-
Module: Quill.Quotation
Layer: Running
Purpose: Trees as values. `quote(e)` is the tree of `e` with every call `unquote(x)` in it replaced by
  what the value of `x` stands for. Calls are met from the leaves up, so the argument of an outer
  `unquote` has been spliced already. A value without a tree leaves the call as it is.
Main exports: Value.toNode?, Node.unquoted?, splice, quotation
-/
import Quill.Machine
import Quill.Tree.Traversal

namespace Quill

/-- The tree that a value stands for: a literal, or what was quoted. -/
def Value.toNode? : Value → Option Node
  | .integer n => some (.expr (.integer n))
  | .float x => some (.expr (.float x))
  | .boolean b => some (.expr (.boolean b))
  | .text s => some (.expr (.text s))
  | .null => some (.expr .null)
  | .quote n => some n
  | _ => none

/-- The name under which a quotation is asked for. -/
def quoteName : String :=
  "quote"

/-- The name that marks a place to splice. -/
def unquoteName : String :=
  "unquote"

/-- The arguments of a call of the name that marks a place to splice. -/
def Node.unquoted? : Node → Option (List Expr)
  | .expr (.call (.ident name) args) => if name = unquoteName then some args else none
  | _ => none

theorem Node.eq_call_of_unquoted {n : Node} {args : List Expr} (isCall : n.unquoted? = some args) :
    n = .expr (.call (.ident unquoteName) args) := by
  unfold unquoted? at isCall
  split at isCall
  · split at isCall
    · rename_i isMark
      cases isCall
      rw [isMark]
    · cases isCall
  · cases isCall

/-- Splices a value into the place that a tree marks, if it marks one. -/
def splice (ev : Expr → Eval Value) (n : Node) : Eval Node :=
  match n.unquoted? with
  | none => return n
  | some [arg] => do
    let v ← ev arg
    return v.toNode?.getD n
  | some args => Eval.misuse (.unquoteArity args.length)

/-- A tree that marks no place is left as it is. -/
theorem splice_of_unquoted_none {ev : Expr → Eval Value} {n : Node} {m : Machine} (unmarked : n.unquoted? = none) :
    splice ev n m = (.ok n, m) := by
  unfold splice
  rw [unmarked]
  rfl

/-- The quotation of an expression, given how expressions in marked places are evaluated. -/
def quotation (ev : Expr → Eval Value) (e : Expr) : Eval Value := do
  let n ← Node.transform (splice ev) (.expr e)
  return .quote n

end Quill
