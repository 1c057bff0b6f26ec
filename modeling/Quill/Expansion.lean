/-
Module: Quill.Expansion
Layer: Running
Purpose: Macros. Before a program runs, the top-level statements `let name = macro(…) { … }` are taken out
  of it and kept in a scope of their own, and every call of a macro of that scope is replaced by the tree
  that its body yields for the trees of the arguments. Calls are met from the leaves up, so the arguments
  of a macro call have been expanded; what a macro yields is not expanded again.
Main exports: Stmt.macroDefinition?, defineMacros, expandCall, expandMacrosBy, expandMacros
-/
import Quill.Evaluation

namespace Quill

/-- The name, parameters and body of the macro that a statement defines, if it defines one. -/
def Stmt.macroDefinition? : Stmt → Option (String × List String × Block)
  | .bind name (.macroLiteral params body) => some (name, params, body)
  | _ => none

/-- Reports the faults of a computation as failures of a macro. -/
def onBehalfOf {α : Type} (name : String) (p : Eval α) : Eval α :=
  p.mapFault (fun f => .misuse (.failed name f))

/-- Binds a macro in a scope, which is also the scope that its body sees. -/
def defineMacro (scope : ScopeId) (name : String) (params : List String) (body : Block) : Eval Unit :=
  onBehalfOf name do
    let identity ← Eval.freshIdentity
    Eval.define scope name (.macroValue ⟨params, body, scope, identity⟩)

/-- Binds the macros that some statements define and yields the other statements. -/
def defineMacros (scope : ScopeId) : List Stmt → Eval (List Stmt)
  | [] => return []
  | s :: rest =>
    match s.macroDefinition? with
    | some (name, params, body) => do
      defineMacro scope name params body
      defineMacros scope rest
    | none => do
      let kept ← defineMacros scope rest
      return s :: kept

/-- The tree that a macro yields for some argument trees. -/
def expandCall (ev : Evaluator) (name : String) (m : Macro) (args : List Expr) : Eval Node :=
  if args.length = m.params.length then do
    let v ← onBehalfOf name do
      let inner ← Eval.newScope (some m.scope)
      Eval.defineAll inner (m.params.zip (args.map (fun e => .quote (.expr e))))
      evalBlock ev inner m.body
    match v.content with
    | .quote n => return n
    | other => Eval.misuse (.notQuote name other.kind)
  else
    Eval.misuse (.arity name m.params.length args.length)

/-- Replaces a tree that is a call of a macro. -/
def expandNode (ev : Evaluator) (macros : ScopeId) : Node → Eval Node
  | .expr (.call (.ident name) args) => do
    match ← Eval.lookup macros name with
    | some (.macroValue m) => expandCall ev name m args
    | _ => return .expr (.call (.ident name) args)
  | n => return n

/-- Replaces the macro calls of a program, given how the bodies of macros are evaluated. -/
def expandMacrosBy (ev : Evaluator) (macros : ScopeId) (p : Program) : Eval Program :=
  p.transform (expandNode ev macros)

/-- Replaces the macro calls of a program. -/
def expandMacros (bound : Nat) : ScopeId → Program → Eval Program :=
  expandMacrosBy (evalExpr bound)

end Quill
