/-
Module: Quill.Proofs.Stepwise
Layer: Proofs
Purpose: Splitting a script into the steps of a session changes nothing. Running statements and then others is
  running all of them, unless the first ones stop or return; and running a text without macros leaves the macros as
  they are, so that a second text without macros is still one afterwards. Hence two such texts, run one after the
  other, end as they do when they are run as one text with a semicolon on a line between them; and where the first
  one fails, so does the whole, in the same way.
Main exports: evalBlock_append, Session.MacroFree.juxtaposed, Session.MacroFree.later, eval_juxtaposed
-/
import Quill.Proofs.Juxtaposition
import Quill.Proofs.MacroFree

namespace Quill

/-!
### Statements in sequence
-/

/-- A pending return or a stop leaves both of two nested operands. -/
theorem Eval.operand_assoc (part : Eval Value) (next further : Value → Eval Value) :
    (part.operand next).operand further = part.operand fun v => (next v).operand further := by
  funext m
  rcases run : part m with ⟨stop | v, m'⟩
  · simp only [Eval.operand, run]
  · cases v <;> simp only [Eval.operand, run]

/-- Running statements and then others, of which there are some, is to go on with the others behind the first. -/
theorem evalBlock_append (ev : Evaluator) (scope : ScopeId) (first : Block) {others : Block} (more : others ≠ []) :
    evalBlock ev scope (first ++ others) =
      (evalBlock ev scope first).operand fun _ => evalBlock ev scope others := by
  obtain ⟨next, rest, rfl⟩ := List.exists_cons_of_ne_nil more
  induction first with
  | nil => rfl
  | cons s first inductionHypothesis =>
      cases first with
      | nil => rfl
      | cons s' first =>
          have goesOn : evalBlock ev scope (s :: s' :: first ++ next :: rest) =
              (evalStmt ev scope s).operand fun _ => evalBlock ev scope (s' :: first ++ next :: rest) := rfl
          rw [goesOn, inductionHypothesis]
          exact (Eval.operand_assoc _ _ _).symm

section Programs

variable {ev : Evaluator} {scope : ScopeId} {first others : Block} {m m' : Machine}

/-- Where the first statements end with an ordinary value, the program goes on with the others. -/
theorem evalProgramBy_append_of_value {v : Value} (more : others ≠ []) (ordinary : ∀ w, v ≠ .returned w)
    (ends : evalBlock ev scope first m = (.ok v, m')) :
    evalProgramBy ev ⟨first ++ others⟩ scope m = evalProgramBy ev ⟨others⟩ scope m' := by
  have goesOn : evalBlock ev scope (first ++ others) m = evalBlock ev scope others m' := by
    rw [evalBlock_append ev scope first more]
    cases v with
    | returned w => exact absurd rfl (ordinary w)
    | _ => simp only [Eval.operand, ends]
  simp only [evalProgramBy, goesOn]

/-- Where the first statements stop, so does the program. -/
theorem evalProgramBy_append_of_stop {stop : Stop} (more : others ≠ [])
    (stops : evalBlock ev scope first m = (.error stop, m')) :
    evalProgramBy ev ⟨first ++ others⟩ scope m = evalProgramBy ev ⟨first⟩ scope m := by
  have stopsToo : evalBlock ev scope (first ++ others) m = evalBlock ev scope first m := by
    rw [evalBlock_append ev scope first more]
    simp only [Eval.operand, stops]
  simp only [evalProgramBy, stopsToo]

end Programs

/-!
### Texts without macros
-/

theorem blockParts_append (first others : List Stmt) :
    blockParts (first ++ others) = blockParts first ++ blockParts others := by
  induction first with
  | nil => rfl
  | cons s first inductionHypothesis => simp [blockParts, inductionHypothesis]

/-- A program as a whole is no call, so what it calls is called in its statements. -/
theorem Program.callees_eq (statements : List Stmt) :
    Program.callees ⟨statements⟩ = (blockParts statements).filterMap Node.callee? := by
  have noCall : List.filterMap Node.callee? [.program ⟨statements⟩] = [] := rfl
  simp only [Program.callees, Program.visits, Node.visits, Node.parts, List.filterMap_append, noCall,
    List.append_nil]

theorem Program.callees_append (first others : List Stmt) :
    Program.callees ⟨first ++ others⟩ = Program.callees ⟨first⟩ ++ Program.callees ⟨others⟩ := by
  simp only [callees_eq, blockParts_append, List.filterMap_append]

/-- Whether a name stands for a macro shows in what a look-up gives. -/
theorem Store.isMacro_congr {s s' : Store} {id : ScopeId} {name : String} (same : s'.get? id name = s.get? id name) :
    s'.isMacro id name = s.isMacro id name := by
  simp only [Store.isMacro, same]

namespace Session

variable {s : Session} {a b source : String}

/-- A session runs a text without macros as it stands. -/
theorem MacroFree.eval (free : s.MacroFree source) (bound : Nat) :
    s.eval bound source =
      (answer (evalProgram bound (parse source).program s.globals s.machine).1,
        s.continued (evalProgram bound (parse source).program s.globals s.machine).2) := by
  have runs : runProgram (evalExpr bound) s.globals s.macros (parse source).program s.machine =
      evalProgram bound (parse source).program s.globals s.machine :=
    runProgram_eq_evalProgramBy _ s.globals free.definesNone free.callsNone
  rw [s.eval_of_readable bound free.readable, runs]

/-- Two texts without macros are one text without macros. -/
theorem MacroFree.juxtaposed (freeA : s.MacroFree a) (freeB : s.MacroFree b) :
    s.MacroFree (a ++ "\n;\n" ++ b) := by
  obtain ⟨words, splits, derives⟩ := juxtaposed_derives freeA.readable freeB.readable
  have parsed := parse_of_splits splits derives
  refine ⟨by rw [parsed], ?_, ?_⟩
  · rw [parsed]
    exact List.forall_mem_append.2 ⟨freeA.definesNone, freeB.definesNone⟩
  · rw [parsed, Program.callees_append]
    exact List.forall_mem_append.2 ⟨freeA.callsNone, freeB.callsNone⟩

/-- A text without macros is still one after another such text has been run. -/
theorem MacroFree.later (freeB : s.MacroFree b) (reachable : s.Reachable) (bound : Nat) (freeA : s.MacroFree a) :
    (s.eval bound a).2.MacroFree b := by
  have spares := (reachable.passed.parted.evalProgram bound (parse a).program).2
  rw [freeA.eval bound]
  refine ⟨freeB.readable, freeB.definesNone, fun name calls => ?_⟩
  have closed := s.machine.store.closed_reaches s.macros
  have same := Store.get?_unchanged closed.parents spares (.self s.macros) name
  show (evalProgram bound (parse a).program s.globals s.machine).2.store.isMacro s.macros name = false
  rw [Store.isMacro_congr same]
  exact freeB.callsNone name calls

end Session

/-!
### Main result
-/

/-- Two texts without macros, run in two steps of a session, end as they do when they are run in one: with the same
    value or failure, and in the same session, what was printed and bound included. If the first one stops, the
    whole stops there. -/
theorem eval_juxtaposed {s : Session} (reachable : s.Reachable) (bound : Nat) {a b : String}
    (freeA : s.MacroFree a) (freeB : s.MacroFree b) (more : (parse b).program.statements ≠ []) :
    (∀ v m, (∀ w, v ≠ .returned w) →
      evalBlock (evalExpr bound) s.globals (parse a).program.statements s.machine = (.ok v, m) →
        s.eval bound (a ++ "\n;\n" ++ b) = (s.eval bound a).2.eval bound b) ∧
    (∀ stop m,
      evalBlock (evalExpr bound) s.globals (parse a).program.statements s.machine = (.error stop, m) →
        s.eval bound (a ++ "\n;\n" ++ b) = s.eval bound a ∧
          s.eval bound a = (.error (.ofStop stop), s.continued m)) := by
  obtain ⟨words, splits, derives⟩ := juxtaposed_derives freeA.readable freeB.readable
  have whole := (freeA.juxtaposed freeB).eval bound
  rw [parse_of_splits splits derives] at whole
  have first := freeA.eval bound
  constructor
  · intro v m ordinary ends
    have second := (freeB.later reachable bound freeA).eval bound
    have reaches : (s.eval bound a).2 = s.continued m := by
      rw [first]
      simp only [evalProgram, evalProgramBy, ends]
    rw [reaches] at second ⊢
    rw [whole, second]
    have goesOn : evalProgram bound ⟨(parse a).program.statements ++ (parse b).program.statements⟩ s.globals
        s.machine = evalProgram bound (parse b).program s.globals m :=
      evalProgramBy_append_of_value more ordinary ends
    rw [goesOn]
    rfl
  · intro stop m stops
    have stopsToo : evalProgram bound ⟨(parse a).program.statements ++ (parse b).program.statements⟩ s.globals
        s.machine = evalProgram bound (parse a).program s.globals s.machine :=
      evalProgramBy_append_of_stop more stops
    constructor
    · rw [whole, first, stopsToo]
    · rw [first]
      cases stop <;> simp only [evalProgram, evalProgramBy, stops, Session.answer, Failure.ofStop]

/-- The first text prints, and the second one then fails; the other way round, the first one fails at once. The
    macro of the session has another name. -/
theorem eval_juxtaposed_beside_macro :
    let s := ((Session.start .unlimited).eval 40 "let m = macro(x) { x };").2
    s.MacroFree "let k = 1; puts(k)" ∧ s.MacroFree "k[0]" ∧
      s.eval 40 ("let k = 1; puts(k)" ++ "\n;\n" ++ "k[0]") = (s.eval 40 "let k = 1; puts(k)").2.eval 40 "k[0]" ∧
        s.eval 40 ("k[0]" ++ "\n;\n" ++ "let k = 1; puts(k)") = s.eval 40 "k[0]" := by
  intro s
  have reachable : s.Reachable := .step 40 _ (.start .unlimited)
  have defines : parse "let m = macro(x) { x };" =
      ⟨⟨[.bind "m" (.macroLiteral ["x"] [.expr (.ident "x")])]⟩, []⟩ := by rfl
  have isSession : s =
      ⟨⟨⟨#[⟨none, []⟩, ⟨none, [("m", ⟨.macroValue ⟨["x"], [.expr (.ident "x")], 1, 0⟩, false⟩)]⟩]⟩, 1, .unlimited⟩,
        0, 1⟩ := by
    show ((Session.start .unlimited).eval 40 "let m = macro(x) { x };").2 = _
    rw [Session.eval_of_readable _ _ (by rw [defines]), defines]
    rfl
  have prints : parse "let k = 1; puts(k)" =
      ⟨⟨[.bind "k" (.integer 1), .expr (.call (.ident "puts") [.ident "k"])]⟩, []⟩ := by rfl
  have indexes : parse "k[0]" = ⟨⟨[.expr (.index (.ident "k") (.integer 0))]⟩, []⟩ := by rfl
  have freePrints : s.MacroFree "let k = 1; puts(k)" := by
    refine ⟨by rw [prints], by rw [prints]; decide, ?_⟩
    rw [prints, isSession]
    decide
  have freeIndexes : s.MacroFree "k[0]" := by
    refine ⟨by rw [indexes], by rw [indexes]; decide, ?_⟩
    rw [indexes, isSession]
    decide
  refine ⟨freePrints, freeIndexes, ?_, ?_⟩
  · have goesOn := (eval_juxtaposed reachable 40 freePrints freeIndexes (by rw [indexes]; nofun)).1
    rw [prints, isSession] at goesOn
    rw [isSession]
    exact goesOn .null _ nofun rfl
  · have stops := (eval_juxtaposed reachable 40 freeIndexes freePrints (by rw [prints]; nofun)).2
    rw [indexes, isSession] at stops
    rw [isSession]
    exact (stops (.fault (.unbound "k")) _ rfl).1

end Quill
