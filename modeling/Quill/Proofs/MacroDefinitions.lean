/-
Module: Quill.Proofs.MacroDefinitions
Layer: Proofs
Purpose: Defining macros splits a program in two and cannot fail. The scope of the macros never holds a constant, in
  whatever state a session is and at whatever point of a run: a constant is bound in the scope in which code runs, no
  code runs in the scope of the macros, and an assignment that reaches it from the body of a macro leaves a variable.
  So every definition of a program is taken. The statements that define no macro are kept in order, each name that is
  defined stands for its last definition, and nothing else changes.
Main exports: Store.constantFree, constantFreedom, lastMacro, DefinesMacros, defineMacros_of_constantFree,
  macro_definitions_taken
-/
import Quill.Proofs.Locality
import Quill.Proofs.Separation

namespace Quill

/-!
### Scopes without constants
-/

namespace Store

variable {s : Store} {id owner : ScopeId} {name : String} {b : Binding}

/-- Whether there is a scope of that number, and it declares no name for good. -/
def constantFree (s : Store) (id : ScopeId) : Bool :=
  decide (id < s.scopes.size) && (s.declarations id).all fun declared => !declared.2

theorem constantFree_iff :
    s.constantFree id = true ↔ id < s.scopes.size ∧ ∀ declared ∈ s.declarations id, declared.2 = false := by
  simp [constantFree]

theorem constantFree_of_declarations {s' : Store} (grows : s.scopes.size ≤ s'.scopes.size)
    (same : s'.declarations id = s.declarations id) (free : s.constantFree id = true) : s'.constantFree id = true := by
  rw [constantFree_iff] at free ⊢
  rw [same]
  exact ⟨Nat.lt_of_lt_of_le free.1 grows, free.2⟩

theorem mem_declarations_of_own? (own : s.own? id name = some b) : (name, b.constant) ∈ s.declarations id := by
  unfold own? at own
  split at own
  · rename_i scope found
    rw [declarations, found]
    exact List.mem_map_of_mem (Assoc.mem_of_lookup own)
  · cases own

/-- In a scope without constants, every name can be defined. -/
theorem placeToDefine_of_constantFree (free : s.constantFree id = true) (name : String) :
    s.placeToDefine id name = .ok id := by
  unfold placeToDefine
  split
  · rename_i v own
    cases (constantFree_iff.1 free).2 _ (mem_declarations_of_own? own)
  · rfl

/-- Setting a binding declares its name and nothing else. -/
theorem mem_declarations_setOwn {declared : String × Bool}
    (member : declared ∈ (s.setOwn owner name b).declarations id) :
    declared = (name, b.constant) ∨ declared ∈ s.declarations id := by
  by_cases isOwner : id = owner
  · subst isOwner
    cases found : s.scopes[id]? with
    | none => simp [declarations, setOwn, Array.getElem?_modify, found] at member
    | some scope =>
        simp only [declarations, setOwn, Array.getElem?_modify, found, if_true, Option.map_some] at member ⊢
        obtain ⟨entry, inSet, rfl⟩ := List.mem_map.1 member
        rcases Assoc.mem_set inSet with rfl | old
        · exact .inl rfl
        · exact .inr (List.mem_map_of_mem old)
  · rw [declarations_setOwn_of_ne isOwner] at member
    exact .inr member

/-- A variable may be bound anywhere. -/
theorem constantFree_setOwn (isVariable : b.constant = false) (free : s.constantFree id = true) :
    (s.setOwn owner name b).constantFree id = true := by
  rw [constantFree_iff] at free ⊢
  refine ⟨by rw [size_setOwn]; exact free.1, fun declared member => ?_⟩
  rcases mem_declarations_setOwn member with rfl | old
  · exact isVariable
  · exact free.2 declared old

end Store

/-- Code runs in other scopes than the given one, which holds no constant. -/
def constantFreeLaw (macros : ScopeId) : ScopeLaw where
  sound m := m.store.constantFree macros = true
  later _ _ := True
  runs _ scope := scope ≠ macros
  later_refl _ := trivial
  later_trans _ _ := trivial
  runs_later _ runs := runs
  newScope := by
    intro m parent free
    have grows : m.store.scopes.size ≤ (m.store.newScope parent).2.scopes.size := by simp
    refine ⟨Store.constantFree_of_declarations grows (Store.declarations_newScope _ _ _) free, trivial, ?_⟩
    exact Nat.ne_of_gt (Store.constantFree_iff.1 free).1
  define := by
    intro m scope name owner b free runs place
    -- a constant is bound in the scope in which code runs, and that is another one
    obtain ⟨rfl, _⟩ := Store.placeToDefine_eq_ok place
    have grows : m.store.scopes.size ≤ (m.store.setOwn owner name b).scopes.size := by simp
    exact ⟨Store.constantFree_of_declarations grows (Store.declarations_setOwn_of_ne (Ne.symm runs)) free, trivial⟩
  assign _ free _ _ := ⟨Store.constantFree_setOwn rfl free, trivial⟩
  fresh free := ⟨free, trivial⟩
  print _ free := ⟨free, trivial⟩

/-- The discipline of keeping a scope free from constants. -/
def constantFreedom (macros : ScopeId) : Discipline :=
  (constantFreeLaw macros).discipline

instance (macros : ScopeId) : DecidablePred (constantFreedom macros).sound :=
  fun m => inferInstanceAs (Decidable (m.store.constantFree macros = true))

instance (macros : ScopeId) (m : Machine) : DecidablePred ((constantFreedom macros).good m) :=
  fun _ => inferInstanceAs (Decidable True)

/-!
### Defining macros
-/

/-- The parameters and the body of the last macro of a name that some statements define. -/
def lastMacro (ss : List Stmt) (name : String) : Option (List String × Block) :=
  (ss.filterMap Stmt.macroDefinition?).reverse.lookup name

/-- What defining the macros of some statements does to a machine. -/
structure DefinesMacros (scope : ScopeId) (ss : List Stmt) (m m' : Machine) : Prop where
  defined : ∀ {name params body}, lastMacro ss name = some (params, body) →
    ∃ identity, m'.store.own? scope name = some ⟨.macroValue ⟨params, body, scope, identity⟩, false⟩
  others : ∀ {name}, lastMacro ss name = none → m'.store.own? scope name = m.store.own? scope name
  elsewhere : ∀ {id}, id ≠ scope → m'.store.scopes[id]? = m.store.scopes[id]?
  around : m'.store.parent? scope = m.store.parent? scope
  silent : m'.sink = m.sink
  free : m'.store.constantFree scope = true

/-- The machine in which a macro has been bound. -/
def Machine.withMacro (m : Machine) (scope : ScopeId) (name : String) (params : List String) (body : Block) :
    Machine :=
  { m with
    store := m.store.setOwn scope name ⟨.macroValue ⟨params, body, scope, m.nextIdentity⟩, false⟩
    nextIdentity := m.nextIdentity + 1 }

section Defining

variable {m : Machine} {scope : ScopeId} {statement : Stmt} {name : String} {params : List String} {body : Block}

theorem defineMacro_of_constantFree (free : m.store.constantFree scope = true) :
    defineMacro scope name params body m = (.ok (), m.withMacro scope name params body) := by
  have placed := Store.placeToDefine_of_constantFree free name
  have defines : (Eval.freshIdentity >>= fun identity =>
      Eval.define scope name (.macroValue ⟨params, body, scope, identity⟩)) m =
        (.ok (), m.withMacro scope name params body) := by
    show Eval.andThen Eval.freshIdentity _ m = _
    simp only [Eval.andThen, Eval.freshIdentity, Eval.define, Eval.bindAt, placed, Machine.withMacro]
  simp only [defineMacro, onBehalfOf, Eval.mapFault, defines]

theorem lastMacro_cons_of_some (isDefinition : statement.macroDefinition? = some (name, params, body))
    (rest : List Stmt) (asked : String) :
    lastMacro (statement :: rest) asked =
      (lastMacro rest asked).or (if asked = name then some (params, body) else none) := by
  simp only [lastMacro, List.filterMap_cons, isDefinition, List.reverse_cons, List.lookup_append]
  by_cases isName : asked = name
  · simp [isName]
  · simp [List.lookup_cons, isName, beq_false_of_ne isName]

theorem lastMacro_cons_of_none (noDefinition : statement.macroDefinition? = none) (rest : List Stmt) :
    lastMacro (statement :: rest) = lastMacro rest := by
  funext asked
  rw [lastMacro, List.filterMap_cons, noDefinition, lastMacro]

/-- One definition and then the others: a later definition of the name takes the place of the first one. -/
theorem DefinesMacros.cons {m' : Machine} {rest : List Stmt} (free : m.store.constantFree scope = true)
    (isDefinition : statement.macroDefinition? = some (name, params, body))
    (defines : DefinesMacros scope rest (m.withMacro scope name params body) m') :
    DefinesMacros scope (statement :: rest) m m' where
  defined := by
    intro asked params' body' isLast
    rw [lastMacro_cons_of_some isDefinition, Option.or_eq_some_iff] at isLast
    rcases isLast with inRest | ⟨notInRest, isFirst⟩
    · exact defines.defined inRest
    · split at isFirst
      · rename_i isName
        cases isFirst
        refine ⟨m.nextIdentity, (defines.others notInRest).trans ?_⟩
        rw [Machine.withMacro, Store.own?_setOwn, if_pos ⟨rfl, isName, (Store.constantFree_iff.1 free).1⟩]
      · cases isFirst
  others := by
    intro asked notDefined
    rw [lastMacro_cons_of_some isDefinition, Option.or_eq_none_iff] at notDefined
    have otherName : asked ≠ name := by
      rintro rfl
      simp at notDefined
    exact (defines.others notDefined.1).trans (Store.own?_setOwn_of_ne (.inr otherName))
  elsewhere different := (defines.elsewhere different).trans (Store.scopes_setOwn_of_ne different)
  around := defines.around.trans (Store.parent?_setOwn _ _ _ _ _)
  silent := defines.silent
  free := defines.free

/-- In a scope without constants, every definition is taken and every other statement is kept. -/
theorem defineMacros_of_constantFree (ss : List Stmt) (free : m.store.constantFree scope = true) :
    ∃ m', defineMacros scope ss m = (.ok (ss.filter fun statement => statement.macroDefinition?.isNone), m') ∧
      DefinesMacros scope ss m m' := by
  induction ss generalizing m with
  | nil =>
      refine ⟨m, rfl, ?_, fun _ => rfl, fun _ => rfl, rfl, rfl, free⟩
      intro name params body isLast
      cases isLast
  | cons statement rest inductionHypothesis =>
      cases isDefinition : statement.macroDefinition? with
      | some definition =>
          obtain ⟨name, params, body⟩ := definition
          have free' : (m.withMacro scope name params body).store.constantFree scope = true :=
            Store.constantFree_setOwn rfl free
          obtain ⟨m', run, defines⟩ := inductionHypothesis free'
          refine ⟨m', ?_, defines.cons free isDefinition⟩
          rw [List.filter_cons_of_neg (by simp [isDefinition]), defineMacros, isDefinition]
          exact (Eval.bind_of_ok (defineMacro_of_constantFree free)).trans run
      | none =>
          obtain ⟨m', run, defines⟩ := inductionHypothesis free
          have sameMacros := lastMacro_cons_of_none isDefinition rest
          refine ⟨m', ?_, ⟨?_, ?_, defines.elsewhere, defines.around, defines.silent, defines.free⟩⟩
          · rw [List.filter_cons_of_pos (by simp [isDefinition]), defineMacros, isDefinition]
            exact Eval.bind_of_ok run
          · rw [sameMacros]
            exact defines.defined
          · rw [sameMacros]
            exact defines.others

theorem defineMacros_keeps_constantFree (ss : List Stmt) (free : m.store.constantFree scope = true) :
    (constantFreedom scope).Alike m (defineMacros scope ss) (defineMacros scope ss) fun _ _ => True := by
  obtain ⟨m', run, defines⟩ := defineMacros_of_constantFree ss free
  exact ⟨rfl, by rw [run]; exact defines.free, trivial, fun _ _ => trivial⟩

end Defining

/-!
### Sessions
-/

namespace Session

variable {s : Session}

/-- The scope of the macros holds no constant, and programs run elsewhere. -/
structure MacrosFree (s : Session) : Prop where
  apart : s.globals ≠ s.macros
  free : s.machine.store.constantFree s.macros = true

/-- Code never runs in the scope of the macros, though macros are bound there. -/
theorem MacrosFree.runProgram {ev ev' : Evaluator} (evaluates : (constantFreedom s.macros).Evaluates ev ev')
    (macrosFree : s.MacrosFree) (p : Program) :
    (constantFreedom s.macros).Alike s.machine (runProgram ev s.globals s.macros p)
      (runProgram ev' s.globals s.macros p) fun _ _ => True := by
  refine .bind (defineMacros_keeps_constantFree p.statements macrosFree.free) fun kept m' _ free' _ => ?_
  refine .bind (Discipline.expandMacrosBy_alike evaluates ⟨kept⟩ free' trivial) fun expanded m'' _ free'' _ => ?_
  exact (Discipline.evalProgramBy_alike evaluates expanded free'' macrosFree.apart).weaken fun _ _ _ _ => trivial

/-- Evaluators that are alike wherever the scope of the macros holds no constant run a text in the same way. -/
theorem MacrosFree.evalBy {ev ev' : Evaluator} (evaluates : (constantFreedom s.macros).Evaluates ev ev')
    (macrosFree : s.MacrosFree) (source : String) :
    s.evalBy ev source = s.evalBy ev' source ∧ (s.evalBy ev source).2.MacrosFree := by
  by_cases readable : (parse source).diagnostics = []
  · have runs := macrosFree.runProgram evaluates (parse source).program
    rw [s.evalBy_of_readable ev readable, s.evalBy_of_readable ev' readable]
    exact ⟨by rw [runs.same], macrosFree.apart, runs.sound⟩
  · rw [s.evalBy_of_unreadable ev readable, s.evalBy_of_unreadable ev' readable]
    exact ⟨rfl, macrosFree⟩

theorem start_macrosFree (sink : Sink) : (Session.start sink).MacrosFree :=
  ⟨Nat.zero_ne_one, rfl⟩

theorem Passed.macrosFree (passed : s.Passed) : s.MacrosFree := by
  induction passed with
  | start sink => exact start_macrosFree sink
  | defined ss _ inductionHypothesis =>
      exact ⟨inductionHypothesis.apart, (defineMacros_keeps_constantFree ss inductionHypothesis.free).sound⟩
  | @expanded s bound p _ inductionHypothesis =>
      obtain ⟨apart, free⟩ := inductionHypothesis
      have evaluates : (constantFreedom s.macros).Evaluates (evalExpr bound) (evalExpr bound) :=
        Discipline.evalExpr_alike bound
      exact ⟨apart, (Discipline.expandMacrosBy_alike evaluates p free trivial).sound⟩
  | @ran s bound p _ inductionHypothesis =>
      obtain ⟨apart, free⟩ := inductionHypothesis
      have evaluates : (constantFreedom s.macros).Evaluates (evalExpr bound) (evalExpr bound) :=
        Discipline.evalExpr_alike bound
      exact ⟨apart, (Discipline.evalProgramBy_alike evaluates p free apart).sound⟩
  | text bound source _ inductionHypothesis =>
      exact (inductionHypothesis.evalBy (Discipline.evalExpr_alike bound) source).2

end Session

/-!
### Main result
-/

/-- The definitions of a program are taken in whole, and nothing can stand in their way. -/
structure Session.TakesDefinitions (s : Session) : Prop where
  constantFree : s.machine.store.constantFree s.macros = true
  /-- while a text runs, the watch never finds a constant in the scope of the macros -/
  inFlight : ∀ alarm bound source,
    s.evalBy ((constantFreedom s.macros).evalWatching alarm evalForm bound) source = s.eval bound source
  defines : ∀ ss, ∃ m', defineMacros s.macros ss s.machine =
      (.ok (ss.filter fun statement => statement.macroDefinition?.isNone), m') ∧
    DefinesMacros s.macros ss s.machine m'

/-- Defining macros never fails in a session and splits every program in two. -/
theorem macro_definitions_taken {s : Session} (passed : s.Passed) : s.TakesDefinitions where
  constantFree := passed.macrosFree.free
  inFlight _ bound source :=
    (passed.macrosFree.evalBy (Discipline.evalWatching_alike Discipline.respects_evalForm bound) source).1.symm
  defines ss := defineMacros_of_constantFree ss passed.macrosFree.free

/-- The body of a macro makes a constant and assigns the name of another macro, which is then defined again. -/
theorem macro_definitions_taken_after_expansion :
    (((Session.start .unlimited).eval 40
      "let k = macro() { quote(0) }; let m = macro(x) { const c = 1; k = fn() { c }; quote(unquote(x)) };
       let v = m(1 + 2); const m = v;").2.eval 40
      "let k = macro(y) { quote(unquote(y) + 1) }; k(m)").2.TakesDefinitions :=
  macro_definitions_taken (.text 40 _ (.text 40 _ (.start .unlimited)))

end Quill
