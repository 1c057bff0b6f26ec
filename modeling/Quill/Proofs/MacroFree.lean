/-
Module: Quill.Proofs.MacroFree
Layer: Proofs
Purpose: Texts that use no macros. A session takes the macro definitions out of a text, expands the rest from the
  leaves up and only then runs it. For a text that defines no macro and calls none, the first phase keeps every
  statement and the second one yields every tree that it visits, so that the session answers as running the parsed
  program answers, and ends in the same machine.
Main exports: Program.callees, Session.MacroFree, runProgram_eq_evalProgramBy, eval_of_macroFree
-/
import Quill.Proofs.Tree.Rewriting
import Quill.Proofs.Separation

namespace Quill

/-!
### Names that are called
-/

/-- The name that a tree calls, if it is a call of a name. -/
def Node.callee? : Node → Option String
  | .expr (.call (.ident name) _) => some name
  | _ => none

/-- The names that a program calls, wherever the calls stand in it. -/
def Program.callees (p : Program) : List String :=
  p.visits.filterMap Node.callee?

/-- Whether a name is that of a macro, as seen from a scope. -/
def Store.isMacro (s : Store) (scope : ScopeId) (name : String) : Bool :=
  match s.get? scope name with
  | some (.macroValue _) => true
  | _ => false

/-- A text that can be read and that neither defines a macro nor calls a macro of the session. -/
structure Session.MacroFree (s : Session) (source : String) : Prop where
  readable : (parse source).diagnostics = []
  definesNone : ∀ statement ∈ (parse source).program.statements, statement.macroDefinition? = none
  callsNone : ∀ name ∈ (parse source).program.callees, s.machine.store.isMacro s.macros name = false

/-!
### Phases that do nothing
-/

/-- Run from `m`, a computation yields a value and changes nothing. -/
def Eval.Quiet (m : Machine) (α : Type) (p : Eval α) (a : α) : Prop :=
  p m = (.ok a, m)

theorem Eval.certain_quiet (m : Machine) : Certain (Eval.Quiet m) where
  pure _ := rfl
  bind first second := (Eval.bind_of_ok first).trans second

section Phases

variable {ev : Evaluator} {macros : ScopeId} {m : Machine}

theorem defineMacros_quiet (ss : List Stmt) (definesNone : ∀ statement ∈ ss, statement.macroDefinition? = none) :
    Eval.Quiet m (List Stmt) (defineMacros macros ss) ss := by
  induction ss with
  | nil => exact (Eval.certain_quiet m).pure []
  | cons statement rest inductionHypothesis =>
      obtain ⟨first, others⟩ := List.forall_mem_cons.1 definesNone
      unfold defineMacros
      rw [first]
      exact (Eval.certain_quiet m).map (inductionHypothesis others) _

theorem expandNode_quiet (n : Node)
    (noMacro : ∀ name, n.callee? = some name → m.store.isMacro macros name = false) :
    Eval.Quiet m Node (expandNode ev macros n) n := by
  have certain := Eval.certain_quiet m
  unfold expandNode
  split
  · rename_i name args
    have looksUp : Eval.Quiet m (Option Value) (Eval.lookup macros name) (m.store.get? macros name) := rfl
    refine certain.bind looksUp ?_
    have isNone := noMacro name rfl
    unfold Store.isMacro at isNone
    -- the lookup found a macro, which `isNone` excludes, or it leaves the call alone
    split
    · rename_i found
      rw [found] at isNone
      cases isNone
    · exact certain.pure _
  · exact certain.pure _

theorem expandMacrosBy_quiet (p : Program) (callsNone : ∀ name ∈ p.callees, m.store.isMacro macros name = false) :
    Eval.Quiet m Program (expandMacrosBy ev macros p) p := by
  refine (Eval.certain_quiet m).transform_program p fun n visited => expandNode_quiet n fun name calls => ?_
  exact callsNone name (List.mem_filterMap.2 ⟨n, visited, calls⟩)

/-- Without macros, what a session does with a program is to run it. -/
theorem runProgram_eq_evalProgramBy (p : Program) (globals : ScopeId)
    (definesNone : ∀ statement ∈ p.statements, statement.macroDefinition? = none)
    (callsNone : ∀ name ∈ p.callees, m.store.isMacro macros name = false) :
    Session.runProgram ev globals macros p m = evalProgramBy ev p globals m := by
  have defines : defineMacros macros p.statements m = (.ok p.statements, m) := defineMacros_quiet _ definesNone
  have expands : expandMacrosBy ev macros p m = (.ok p, m) := expandMacrosBy_quiet p callsNone
  exact (Eval.bind_of_ok defines).trans (Eval.bind_of_ok expands)

end Phases

/-!
### Main result
-/

/-- The session went on to where the run ended, and answers with the value, the fault or the misuse of the run. -/
structure Session.Reports (s : Session) (ran : Except Stop Value × Machine)
    (answered : Except Failure Value × Session) : Prop where
  continues : answered.2 = s.continued ran.2
  value : ∀ v, (∀ f, v ≠ .error f) → ran.1 = .ok v → answered.1 = .ok v
  failed : ∀ f, ran.1 = .ok (.error f) → answered.1 = .error (.failed f)
  misused : ∀ x, ran.1 = .error (.misuse x) → answered.1 = .error (.misused x)
  exhausted : ran.1 = .error .exhausted → answered.1 = .error .exhausted
  /-- the run did not end in any other way -/
  ends : ∀ f, ran.1 ≠ .error (.fault f)

theorem Session.reports_evalProgram (s : Session) (bound : Nat) (p : Program) :
    s.Reports (evalProgram bound p s.globals s.machine)
      (Session.answer (evalProgram bound p s.globals s.machine).1,
        s.continued (evalProgram bound p s.globals s.machine).2) where
  continues := rfl
  value v noError ran := by
    rw [ran]
    cases v with
    | error f => exact absurd rfl (noError f)
    | _ => rfl
  failed f ran := by rw [ran]; rfl
  misused x ran := by rw [ran]; rfl
  exhausted ran := by rw [ran]; rfl
  ends f ran := by
    rcases block : evalBlock (evalExpr bound) s.globals p.statements s.machine with ⟨(g | x | _) | v, m⟩ <;>
      simp [evalProgram, evalProgramBy, block] at ran

/-- A session answers a text without macros as running the parsed program answers: what was printed and bound is
    the same, and everything that the macros can see is as it was. -/
theorem eval_of_macroFree {s : Session} (reachable : s.Reachable) (bound : Nat) {source : String}
    (free : s.MacroFree source) :
    s.Reports (evalProgram bound (parse source).program s.globals s.machine) (s.eval bound source) ∧
      ∀ id, s.machine.store.Reaches s.macros id →
        (s.eval bound source).2.machine.store.scopes[id]? = s.machine.store.scopes[id]? := by
  have runs : Session.runProgram (evalExpr bound) s.globals s.macros (parse source).program s.machine =
      evalProgram bound (parse source).program s.globals s.machine :=
    runProgram_eq_evalProgramBy _ s.globals free.definesNone free.callsNone
  rw [s.eval_of_readable bound free.readable, runs]
  exact ⟨s.reports_evalProgram bound _, (reachable.passed.parted.evalProgram bound _).2⟩

/-- The text calls a function of its own, which makes a quotation with a call in it; the macro of the session has
    another name. -/
theorem eval_of_macroFree_beside_macro :
    let s := ((Session.start .unlimited).eval 40 "let m = macro(x) { x };").2
    s.MacroFree "let f = fn(n) { quote(g(n)) }; puts(f(1));" ∧
      s.Reports (evalProgram 40 (parse "let f = fn(n) { quote(g(n)) }; puts(f(1));").program s.globals s.machine)
        (s.eval 40 "let f = fn(n) { quote(g(n)) }; puts(f(1));") := by
  intro s
  have reachable : s.Reachable := .step 40 _ (.start .unlimited)
  have defines : parse "let m = macro(x) { x };" =
      ⟨⟨[.bind "m" (.macroLiteral ["x"] [.expr (.ident "x")])]⟩, []⟩ := by rfl
  have isSession : s =
      ⟨⟨⟨#[⟨none, []⟩, ⟨none, [("m", ⟨.macroValue ⟨["x"], [.expr (.ident "x")], 1, 0⟩, false⟩)]⟩]⟩, 1, .unlimited⟩,
        0, 1⟩ := by
    show ((Session.start .unlimited).eval 40 "let m = macro(x) { x };").2 = _
    rw [Session.eval_of_readable _ _ (by rw [defines]), defines]
    rfl
  have parsed : parse "let f = fn(n) { quote(g(n)) }; puts(f(1));" =
      ⟨⟨[.bind "f" (.function (some "f") ["n"]
          [.expr (.call (.ident "quote") [.call (.ident "g") [.ident "n"]])]),
        .expr (.call (.ident "puts") [.call (.ident "f") [.integer 1]])]⟩, []⟩ := by rfl
  have free : s.MacroFree "let f = fn(n) { quote(g(n)) }; puts(f(1));" := by
    refine ⟨?_, ?_, ?_⟩
    · rw [parsed]
    · rw [parsed]
      decide
    · rw [parsed, isSession]
      decide
  exact ⟨free, (eval_of_macroFree reachable 40 free).1⟩

end Quill
