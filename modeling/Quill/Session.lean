/-
Module: Quill.Session
Layer: Sessions
Purpose: Running texts one after the other. What one text binds, the next one sees; macros live in a scope
  apart from the one in which programs run. A text that cannot be read changes nothing, and a text that
  fails while it runs keeps what it did up to there.
Main exports: Failure, Failure.message, Session, Session.start, Session.evalBy, Session.eval
-/
import Quill.Parser
import Quill.Expansion

namespace Quill

/-- Why a text of a session has no value. -/
inductive Failure where
  /-- it is not a program -/
  | unreadable (diagnostics : List Diagnostic)
  /-- it failed while running -/
  | failed (fault : Fault)
  /-- it misuses quotation or macros -/
  | misused (misuse : Misuse)
  /-- it did not end within the bound -/
  | exhausted

namespace Failure

/-- The failure that a stop amounts to. -/
def ofStop : Stop → Failure
  | .fault f => failed f
  | .misuse m => misused m
  | .exhausted => exhausted

/-- What went wrong, without saying in which phase. -/
def cause : Failure → String
  | unreadable diagnostics => Diagnostic.summary diagnostics
  | failed f => f.message
  | misused m => m.message
  | exhausted => "evaluation does not end within the bound"

/-- The wording of a failure. -/
def message : Failure → String
  | failed f => "runtime error: " ++ f.message
  | misused m => "macro error: " ++ m.message
  | other => other.cause

end Failure

/-- A machine with the scope in which programs run and the scope of the macros. -/
structure Session where
  machine : Machine
  globals : ScopeId
  macros : ScopeId

namespace Session

/-- A session in which nothing was run yet. -/
def start (sink : Sink) : Session :=
  let (globals, store) := Store.empty.newScope none
  let (macros, store') := store.newScope none
  ⟨{ Machine.start sink with store := store' }, globals, macros⟩

/-- Defines the macros of a program, expands it and runs what is left. -/
def runProgram (ev : Evaluator) (globals macros : ScopeId) (p : Program) : Eval Value := do
  let kept ← defineMacros macros p.statements
  let expanded ← expandMacrosBy ev macros ⟨kept⟩
  evalProgramBy ev expanded globals

/-- Runs a text, given how expressions are evaluated. -/
def evalBy (ev : Evaluator) (s : Session) (source : String) : Except Failure Value × Session :=
  let ⟨machine, globals, macros⟩ := s
  let ⟨program, diagnostics⟩ := parse source
  if diagnostics.isEmpty then
    match runProgram ev globals macros program machine with
    | (.ok (.error f), m) => (.error (.failed f), ⟨m, globals, macros⟩)
    | (.ok v, m) => (.ok v, ⟨m, globals, macros⟩)
    | (.error stop, m) => (.error (.ofStop stop), ⟨m, globals, macros⟩)
  else
    (.error (.unreadable diagnostics), ⟨machine, globals, macros⟩)

/-- Runs a text. -/
def eval (bound : Nat) : Session → String → Except Failure Value × Session :=
  evalBy (evalExpr bound)

/-- The names that programs of the session have bound, sorted. -/
def names (s : Session) : List String :=
  s.machine.store.names s.globals

/-- The value of a name that programs of the session have bound. -/
def get? (s : Session) (name : String) : Option Value :=
  s.machine.store.get? s.globals name

/-- Prints a text where programs print. -/
def print (s : Session) (text : String) : Session :=
  let ⟨machine, globals, macros⟩ := s
  match Eval.write text machine with
  | (_, machine') => ⟨machine', globals, macros⟩

end Session

end Quill
