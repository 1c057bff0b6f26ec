/-
Module: Quill.Proofs.Discipline.Sessions
Layer: Proofs
Purpose: What sessions keep. A text that can be read runs as its program does, and one that cannot leaves the session
  as it was. So a session keeps every law of values, whatever it has run and however that ended: what it stores, what
  it hands around while a text runs and what it answers obeys the law.
Main exports: Session.Reachable, Session.continued, Session.answer, Session.evalBy_of_readable,
  Session.evalBy_of_unreadable, ValueLaw.Obeyed, ValueLaw.obeyed_of_reachable
-/
import Quill.Proofs.Discipline.Watching

namespace Quill

/-!
### Running a text
-/

namespace Session

/-- The sessions that running texts leads to, whatever the texts are and however they end. -/
inductive Reachable : Session → Prop where
  | start (sink : Sink) : Reachable (Session.start sink)
  | step {s : Session} (bound : Nat) (source : String) (reached : Reachable s) :
      Reachable (s.eval bound source).2

/-- The session with another machine. -/
def continued (s : Session) (m : Machine) : Session :=
  ⟨m, s.globals, s.macros⟩

/-- How a session answers for what a run ends with. -/
def answer : Except Stop Value → Except Failure Value
  | .ok (.error f) => .error (.failed f)
  | .ok v => .ok v
  | .error stop => .error (.ofStop stop)

theorem evalBy_of_readable (ev : Evaluator) (s : Session) {source : String}
    (readable : (parse source).diagnostics = []) :
    s.evalBy ev source =
      (answer (runProgram ev s.globals s.macros (parse source).program s.machine).1,
        s.continued (runProgram ev s.globals s.macros (parse source).program s.machine).2) := by
  obtain ⟨machine, globals, macros⟩ := s
  rcases run : runProgram ev globals macros (parse source).program machine with ⟨stop | v, m⟩
  · simp [evalBy, answer, continued, readable, run]
  · cases v <;> simp [evalBy, answer, continued, readable, run]

theorem eval_of_readable (s : Session) (bound : Nat) {source : String}
    (readable : (parse source).diagnostics = []) :
    s.eval bound source =
      (answer (runProgram (evalExpr bound) s.globals s.macros (parse source).program s.machine).1,
        s.continued (runProgram (evalExpr bound) s.globals s.macros (parse source).program s.machine).2) :=
  evalBy_of_readable (evalExpr bound) s readable

theorem evalBy_of_unreadable (ev : Evaluator) (s : Session) {source : String}
    (unreadable : (parse source).diagnostics ≠ []) :
    s.evalBy ev source = (.error (.unreadable (parse source).diagnostics), s) := by
  simp [evalBy, unreadable]

theorem eval_of_unreadable (s : Session) (bound : Nat) {source : String}
    (unreadable : (parse source).diagnostics ≠ []) :
    s.eval bound source = (.error (.unreadable (parse source).diagnostics), s) :=
  evalBy_of_unreadable (evalExpr bound) s unreadable

theorem eq_ok_of_answer {ran : Except Stop Value} {v : Value} (answers : answer ran = .ok v) :
    ran = .ok v ∧ ∀ f, v ≠ .error f := by
  unfold answer at answers
  split at answers
  · cases answers
  · rename_i w noError
    obtain rfl : w = v := Except.ok.inj answers
    exact ⟨rfl, noError⟩
  · cases answers

end Session

/-!
### Laws of values
-/

namespace ValueLaw

variable {law : ValueLaw} [DecidablePred law.good] {s : Session}

/-- Whatever a session stores, hands around or answers obeys the law. -/
structure Obeyed (law : ValueLaw) [DecidablePred law.good] (s : Session) : Prop where
  stored : law.kept s.machine = true
  /-- while a text runs, the watch never raises the alarm -/
  inFlight : ∀ alarm bound source,
    s.evalBy (law.discipline.evalWatching alarm evalForm bound) source = s.eval bound source
  answers : ∀ bound source v, (s.eval bound source).1 = .ok v → law.good v

/-- Evaluators that are alike wherever the law holds run a text in the same way, and keep the law. -/
theorem evalBy_alike {ev ev' : Evaluator} (evaluates : law.discipline.Evaluates ev ev')
    (kept : law.kept s.machine = true) (source : String) :
    s.evalBy ev source = s.evalBy ev' source ∧ law.kept (s.evalBy ev source).2.machine = true ∧
      ∀ v, (s.evalBy ev source).1 = .ok v → law.good v := by
  by_cases readable : (parse source).diagnostics = []
  · have runs : law.discipline.Alike s.machine (Session.runProgram ev s.globals s.macros (parse source).program)
        (Session.runProgram ev' s.globals s.macros (parse source).program) _ :=
      Discipline.runProgram_alike evaluates _ (kept_iff.1 kept) trivial trivial
    have ran := s.evalBy_of_readable ev readable
    refine ⟨?_, ?_, ?_⟩
    · rw [ran, runs.same, s.evalBy_of_readable ev' readable]
    · rw [ran]
      exact kept_iff.2 runs.sound
    · intro v answers
      rw [ran] at answers
      obtain ⟨isValue, noError⟩ := Session.eq_ok_of_answer answers
      rcases runs.yields v isValue with good | ⟨f, isError⟩
      · exact good
      · exact absurd isError (noError f)
  · rw [s.evalBy_of_unreadable ev readable, s.evalBy_of_unreadable ev' readable]
    exact ⟨rfl, kept, fun v answers => nomatch answers⟩

theorem kept_of_reachable (reachable : s.Reachable) : law.kept s.machine = true := by
  induction reachable with
  | start sink => simp [Session.start, kept, Store.newScope, Store.empty]
  | step bound source _ inductionHypothesis =>
      exact (evalBy_alike (Discipline.evalExpr_alike bound) inductionHypothesis source).2.1

theorem obeyed_of_reachable (reachable : s.Reachable) : law.Obeyed s where
  stored := kept_of_reachable reachable
  inFlight alarm bound source := by
    have watched : law.discipline.Evaluates (evalExpr bound) (law.discipline.evalWatching alarm evalForm bound) :=
      Discipline.evalWatching_alike Discipline.respects_evalForm bound
    exact (evalBy_alike watched (kept_of_reachable reachable) source).1.symm
  answers bound source := (evalBy_alike (Discipline.evalExpr_alike bound) (kept_of_reachable reachable) source).2.2

end ValueLaw

end Quill
