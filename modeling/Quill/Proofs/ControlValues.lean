/-
Module: Quill.Proofs.ControlValues
Layer: Proofs
Purpose: Errors and pending returns are signals, not data. `Value.isData` says that neither occurs in a value,
  at any depth. In every session, whatever it has run and however that ended, only data is stored; only
  data is handed to calls; a pending return carries data, so that returns are never nested; and calls and
  programs take the content of a pending return, so that it never leaves them.
Main exports: Value.isData, dataLaw, ReturnsData, Session.ControlFree, session_control_free
-/
import Quill.Proofs.Discipline.Sessions

namespace Quill

/-!
### Data
-/

/-- Whether a value is neither an error nor a pending return. -/
def Value.isNoSignal : Value → Bool
  | .error _ => false
  | .returned _ => false
  | _ => true

/-- Whether no error and no pending return occurs in a value, at any depth. -/
def Value.isData (v : Value) : Bool :=
  v.everywhere Value.isNoSignal

/-- Being data is passed on by evaluation. -/
def dataLaw : ValueLaw :=
  .everywhere Value.isNoSignal
    (fun v isAtomic => by cases v <;> first | rfl | cases isAtomic)
    (fun _ => rfl) (fun _ => rfl) (fun _ => rfl) (fun _ => rfl) rfl (fun _ _ _ _ _ _ => rfl)

instance : DecidablePred dataLaw.good :=
  fun v => inferInstanceAs (Decidable (v.isData = true))

/-!
### Main result
-/

/-- Evaluations that start in `m` yield pending returns of data only, and calls and programs yield none. -/
structure ReturnsData (bound : Nat) (scope : ScopeId) (m : Machine) : Prop where
  ofExpr : ∀ e v, (evalExpr bound e scope m).1 = .ok (.returned v) → v.isData = true
  ofStmt : ∀ s v, (evalStmt (evalExpr bound) scope s m).1 = .ok (.returned v) → v.isData = true
  ofBlock : ∀ b v, (evalBlock (evalExpr bound) scope b m).1 = .ok (.returned v) → v.isData = true
  ofCall : ∀ f vs v, f.isData = true → (∀ w ∈ vs, w.isData = true) →
    (callValue bound f vs m).1 ≠ .ok (.returned v)
  ofProgram : ∀ p v, (evalProgram bound p scope m).1 ≠ .ok (.returned v)
  /-- an error is the value of a program exactly if its statements failed with it -/
  errors : ∀ p f, (evalProgram bound p scope m).1 = .ok (.error f) ↔
    (evalBlock (evalExpr bound) scope p.statements m).1 = .error (.fault f)

theorem returnsData_of_kept {m : Machine} (kept : dataLaw.kept m = true) (bound : Nat) (scope : ScopeId) :
    ReturnsData bound scope m := by
  have sound : dataLaw.discipline.sound m := ValueLaw.kept_iff.1 kept
  have evaluates : dataLaw.discipline.Evaluates (evalExpr bound) (evalExpr bound) :=
    Discipline.evalExpr_alike bound
  have block : ∀ b, dataLaw.discipline.Alike m (evalBlock (evalExpr bound) scope b)
      (evalBlock (evalExpr bound) scope b) _ := fun b =>
    Discipline.evalBlock_alike evaluates b sound trivial
  refine ⟨?_, ?_, ?_, ?_, ?_, ?_⟩
  · intro e v ok
    have alike : dataLaw.discipline.Alike m (evalExpr bound e scope) (evalExpr bound e scope) _ :=
      evaluates sound trivial
    exact alike.yields _ ok
  · intro s v ok
    exact (Discipline.evalStmt_alike evaluates s sound trivial).yields _ ok
  · intro b v ok
    exact (block b).yields _ ok
  · intro f vs v dataF dataVs ok
    cases (Discipline.applyValue_alike evaluates sound dataF dataVs).yields _ ok
  · intro p v ok
    rcases (Discipline.evalProgramBy_alike evaluates p sound trivial).yields _ ok with dataV | isError
    · cases dataV
    · obtain ⟨f, isError⟩ := isError
      cases isError
  · intro p f
    have yields := (block p.statements).yields
    rcases run : evalBlock (evalExpr bound) scope p.statements m with ⟨(g | x | _) | v, m'⟩
    · simp [evalProgram, evalProgramBy, run]
    · simp [evalProgram, evalProgramBy, run]
    · simp [evalProgram, evalProgramBy, run]
    · rw [run] at yields
      have dataV : v.content.isData = true := yields v rfl
      simp only [evalProgram, evalProgramBy, run, Except.ok.injEq, reduceCtorEq, iff_false]
      intro isError
      rw [isError] at dataV
      cases dataV

/-- Nothing that a session stores, hands around or answers is a control value or contains one. -/
structure Session.ControlFree (s : Session) : Prop where
  obeyed : dataLaw.Obeyed s
  /-- from every machine that a run of the session passes through, since those hold data -/
  returns : ∀ m, dataLaw.kept m = true → ∀ bound scope, ReturnsData bound scope m

/-- Control values never become data, in whatever state a session is. -/
theorem session_control_free {s : Session} (reachable : s.Reachable) : s.ControlFree where
  obeyed := ValueLaw.obeyed_of_reachable reachable
  returns _ kept := returnsData_of_kept kept

/-- The second text returns out of an array literal inside a call, and the third one fails. -/
theorem session_control_free_after_return :
    ((((Session.start .unlimited).eval 40 "let f = fn(x) { [x, if (x) { return 2; }] };").2.eval 40
      "let y = f(true);").2.eval 40 "y[0]").2.ControlFree :=
  session_control_free (.step 40 _ (.step 40 _ (.step 40 _ (.start .unlimited))))

end Quill
