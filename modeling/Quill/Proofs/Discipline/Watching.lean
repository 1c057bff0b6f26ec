/-
Module: Quill.Proofs.Discipline.Watching
Layer: Proofs
Purpose: Evaluation under watch. The watch stands at both ends of the evaluation of every expression and at every call,
  and raises the alarm when a machine does not follow the discipline or something is yielded or handed around that is
  not good. What the alarm does is left open: evaluating under watch is evaluating, so it never comes to that. The
  forms of the language may be evaluated by a variant that is alike wherever the discipline holds, which may have
  guards of its own. Whether a machine stores only values that obey a law can be computed, so every law of values that
  can be computed can be watched.
Main exports: Form, Discipline.watch, Discipline.watchCall, Discipline.evalWatching, Discipline.Respects,
  Discipline.evalWatching_alike, ValueLaw.kept, ValueLaw.kept_iff
-/
import Quill.Proofs.Discipline.Stored
import Quill.Proofs.Discipline.Evaluation

namespace Quill

/-- A way to evaluate an expression, given how its parts are evaluated, how values are called and how many rounds a
    loop may have. -/
abbrev Form := Evaluator → Caller → Nat → ScopeId → Expr → Eval Value

namespace Discipline

section Watch

variable (D : Discipline) [DecidablePred D.sound] [∀ m, DecidablePred (D.good m)]

/-- Whether a result is a stop, a good value, or a pending return of one. -/
def admitted (m : Machine) : Except Stop Value → Bool
  | .ok v => decide (D.good m v.content)
  | .error _ => true

/-- Raises the alarm if the machine does not follow the discipline before or after, or if something is yielded that is
    not good. -/
def watch (alarm p : Eval Value) : Eval Value :=
  fun m =>
    if D.sound m then
      match p m with
      | (result, m') => if D.sound m' ∧ D.admitted m' result = true then (result, m') else alarm m'
    else
      alarm m

/-- Raises the alarm if something that is not good is called or handed to a call. -/
def watchCall (alarm : Eval Value) (call : Caller) : Caller :=
  fun f vs m => if D.good m f ∧ ∀ v ∈ vs, D.good m v then call f vs m else alarm m

/-- Evaluates by the given form, under watch. -/
def evalWatching (alarm : Eval Value) (form : Form) : (bound : Nat) → Evaluator
  | 0, _, _ => Eval.exhausted
  | bound + 1, e, scope =>
    let call := D.watchCall alarm (applyValue (evalWatching alarm form bound))
    D.watch alarm (form (evalWatching alarm form bound) call bound scope e)

end Watch

/-- A form that is alike wherever the discipline holds. -/
def Respects (D : Discipline) (form : Form) : Prop :=
  ∀ ⦃ev ev' call call'⦄, D.Evaluates ev ev' → D.Calls call call' → ∀ rounds e ⦃m scope⦄, D.sound m → D.runs m scope →
    D.Alike m (evalForm ev call rounds scope e) (form ev' call' rounds scope e) D.Outcome

theorem respects_evalForm {D : Discipline} : D.Respects evalForm :=
  fun _ _ _ _ evaluates calls rounds e _ _ sound runs => evalForm_alike evaluates calls rounds e sound runs

variable {D : Discipline} [DecidablePred D.sound] [∀ m, DecidablePred (D.good m)] {alarm : Eval Value}

theorem watch_alike {p p' : Eval Value} {m : Machine} (sound : D.sound m) (alike : D.Alike m p p' D.Outcome) :
    D.Alike m p (D.watch alarm p') D.Outcome := by
  obtain ⟨same, sound', later, yields⟩ := alike
  refine ⟨?_, sound', later, yields⟩
  rcases run : p m with ⟨result, m'⟩
  rw [run] at same sound' yields
  have good : D.admitted m' result = true := by
    cases result with
    | error stop => rfl
    | ok v => exact decide_eq_true (yields v rfl)
  simp only [watch, ← same, if_pos sound, if_pos (And.intro sound' good)]

omit [DecidablePred D.sound] in
theorem watchCall_calls {call call' : Caller} (calls : D.Calls call call') :
    D.Calls call (D.watchCall alarm call') := by
  intro m f vs sound good goods
  have alike := calls sound good goods
  refine ⟨?_, alike.sound, alike.later, alike.yields⟩
  rw [watchCall, if_pos ⟨good, goods⟩, alike.same]

/-- Evaluating under watch is evaluating. The induction is on the bound; the watch at each level is lifted by what the
    level below keeps. -/
theorem evalWatching_alike {form : Form} (respects : D.Respects form) (bound : Nat) :
    D.Evaluates (evalExpr bound) (D.evalWatching alarm form bound) := by
  induction bound with
  | zero =>
      intro m e scope sound _
      exact .stop sound .exhausted
  | succ bound inductionHypothesis =>
      intro m e scope sound runs
      have calls : D.Calls _ (D.watchCall alarm (applyValue (D.evalWatching alarm form bound))) :=
        watchCall_calls (applyValue_alike inductionHypothesis)
      exact watch_alike sound (respects inductionHypothesis calls bound e sound runs)

end Discipline

/-!
### Laws of values
-/

namespace ValueLaw

/-- Whether a machine stores only values that obey the law. -/
def kept (law : ValueLaw) [DecidablePred law.good] (m : Machine) : Bool :=
  m.store.scopes.all fun scope => scope.bindings.all fun entry => decide (law.good entry.2.value)

variable {law : ValueLaw} [DecidablePred law.good]

theorem kept_iff {m : Machine} : law.kept m = true ↔ law.discipline.sound m := by
  simp only [kept, Array.all_eq_true_iff_forall_mem, List.all_eq_true, decide_eq_true_eq]
  constructor
  · rintro all b ⟨scope, inStore, name, member⟩
    exact all scope inStore (name, b) member
  · intro all scope inStore entry member
    exact all entry.2 ⟨scope, inStore, entry.1, member⟩

instance : DecidablePred law.discipline.sound :=
  fun _ => decidable_of_iff _ kept_iff

instance (m : Machine) : DecidablePred (law.discipline.good m) :=
  inferInstanceAs (DecidablePred law.good)

end ValueLaw

end Quill
