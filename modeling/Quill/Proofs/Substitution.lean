/-
Module: Quill.Proofs.Substitution
Layer: Proofs
Purpose: Macros whose bodies quote a tree expand by substitution. A template is the tree of such a macro: the places that
  it marks are for its parameters. Expansion rebuilds a program from the leaves up, and each call of the name of a
  template gives way to its tree, with the marked places filled by the argument trees as they are by then. The macro
  runs in a scope of its own, in which its parameters stand for quotations of these trees, and quoting its tree is
  itself a traversal; no argument is ever the name that marks a place, so that nothing is marked but what the template
  marks.
Main exports: Template, Template.instantiate, Templates.rule, Program.substitute, Store.Holds, Program.Suits,
  expandMacros_substitutes
-/
import Quill.Proofs.Growth
import Quill.Proofs.MacroFree

namespace Quill

/-!
### Templates
-/

/-- The name in a marked place: `unquote(name)`. -/
def Expr.marked? : Expr → Option String
  | .call (.ident mark) [.ident name] => if mark = unquoteName then some name else none
  | _ => none

/-- The rule that fills the marked places for which there are trees. -/
def Rule.fill (trees : String → Option Expr) : Rule where
  put before rebuilt := (before.marked?.bind trees).getD rebuilt
  keepsNames _ := rfl

/-- The parameters and the quoted tree of a macro. Every call of the name that marks a place marks one for a parameter;
    elsewhere that name marks nothing, but it is not the whole tree. -/
structure Template where
  params : List String
  tree : Expr
  distinct : params.Nodup
  marks : ∀ args, .expr (.call (.ident unquoteName) args) ∈ (Node.expr tree).visits →
    ∃ param ∈ params, args = [.ident param]
  unmarked : tree ≠ .ident unquoteName

namespace Template

/-- The body of the macro: `quote(tree)`. -/
def body (t : Template) : Block :=
  [.expr (.call (.ident quoteName) [t.tree])]

/-- The trees for the marked places. -/
def trees (t : Template) (args : List Expr) (name : String) : Option Expr :=
  (t.params.zip args).lookup name

/-- The tree with the marked places filled by argument trees. -/
def instantiate (t : Template) (args : List Expr) : Expr :=
  t.tree.rewrite (Rule.fill (t.trees args))

end Template

/-- The templates of some names. -/
abbrev Templates := String → Option Template

/-- The rule that replaces the calls of templates. -/
def Templates.rule (templates : Templates) : Rule where
  put _ rebuilt :=
    match rebuilt with
    | .call (.ident name) args =>
      match templates name with
      | some t => t.instantiate args
      | none => .call (.ident name) args
    | other => other
  keepsNames _ := rfl

/-- A program with the calls of templates replaced, from the leaves up. -/
def Program.substitute (templates : Templates) (p : Program) : Program :=
  p.rewrite templates.rule

/-- The macros that a scope sees are templates. -/
def Store.Holds (s : Store) (macros : ScopeId) (templates : Templates) : Prop :=
  ∀ name, match s.get? macros name with
    | some (.macroValue m) => ∃ t, templates name = some t ∧ m.params = t.params ∧ m.body = t.body
    | _ => templates name = none

/-- A program that does not contain the name that marks a place, and in which every call of a template, once the parts
    of the call have been replaced, has as many arguments as the template has parameters. -/
structure Program.Suits (templates : Templates) (p : Program) : Prop where
  unmarked : .expr (.ident unquoteName) ∉ p.visits
  arities : ∀ {callee : Expr} {args : List Expr} {name : String} {t : Template},
    .expr (.call callee args) ∈ p.visits → callee.rewrite templates.rule = .ident name → templates name = some t →
      args.length = t.params.length

/-!
### Filling places
-/

section Filling

variable {trees : String → Option Expr} {e tree : Expr} {name : String}

theorem Expr.eq_call_of_marked (isMarked : e.marked? = some name) : e = .call (.ident unquoteName) [.ident name] := by
  unfold marked? at isMarked
  split at isMarked
  · split at isMarked
    · rename_i isMark
      cases isMarked
      rw [isMark]
    · cases isMarked
  · cases isMarked

theorem Expr.rewrite_fill_of_some (found : e.marked?.bind trees = some tree) : e.rewrite (Rule.fill trees) = tree := by
  show (e.marked?.bind trees).getD _ = tree
  rw [found, Option.getD_some]

theorem Expr.rewrite_fill_of_none (unfilled : e.marked?.bind trees = none) :
    e.rewrite (Rule.fill trees) = e.rebuild (Rule.fill trees) := by
  show (e.marked?.bind trees).getD _ = _
  rw [unfilled, Option.getD_none]

/-- If no place is filled with the marking name, that name comes from nowhere else. -/
theorem Expr.eq_mark_of_rewrite_fill (notMark : ∀ name, trees name ≠ some (.ident unquoteName))
    (isMark : e.rewrite (Rule.fill trees) = .ident unquoteName) : e = .ident unquoteName := by
  cases found : e.marked?.bind trees with
  | some tree =>
      obtain ⟨name, _, isTree⟩ := Option.bind_eq_some_iff.1 found
      rw [rewrite_fill_of_some found] at isMark
      exact absurd (isMark ▸ isTree) (notMark name)
  | none =>
      rw [rewrite_fill_of_none found] at isMark
      exact eq_ident_of_rebuild isMark

end Filling

namespace Template

variable {t : Template} {args : List Expr}

theorem trees_ne_mark (each : ∀ arg ∈ args, arg ≠ .ident unquoteName) (name : String) :
    t.trees args name ≠ some (.ident unquoteName) := by
  intro found
  exact each _ (List.of_mem_zip (Assoc.mem_of_lookup found)).2 rfl

theorem instantiate_ne_mark (each : ∀ arg ∈ args, arg ≠ .ident unquoteName) :
    t.instantiate args ≠ .ident unquoteName := by
  intro isMark
  exact t.unmarked (Expr.eq_mark_of_rewrite_fill (trees_ne_mark each) isMark)

end Template

/-!
### Substituting
-/

section Substituting

variable {templates : Templates}

/-- Rewriting does not produce the marking name. The induction is on the size of the expression; only the arguments of a
    call matter, since a template may be nothing but a place for one of them. -/
theorem Expr.rewrite_ne_mark (e : Expr) (unmarked : .expr (.ident unquoteName) ∉ (Node.expr e).visits) :
    e.rewrite templates.rule ≠ .ident unquoteName := by
  intro isMark
  have whole : e ≠ .ident unquoteName := by
    rintro rfl
    exact unmarked (List.mem_append_right _ List.mem_cons_self)
  unfold rewrite Templates.rule at isMark
  dsimp only at isMark
  split at isMark
  · rename_i name args isCall
    obtain ⟨callee, before, rfl, _, rfl⟩ := eq_call_of_rebuild isCall
    split at isMark
    · rename_i t _
      refine t.instantiate_ne_mark ?_ isMark
      intro arg member
      obtain ⟨old, isArg, rfl⟩ := List.mem_map.1 member
      have smaller := List.sizeOf_lt_of_mem isArg
      exact rewrite_ne_mark old fun marked => unmarked (Node.visits_subset (arg_mem_visits isArg) marked)
    · cases isMark
  · exact whole (eq_ident_of_rebuild isMark)
termination_by sizeOf e

end Substituting

/-!
### Quoting a template
-/

section Quoting

variable {ev : Expr → Eval Value} {m : Machine} {t : Template} {args : List Expr}

variable (each : ∀ arg ∈ args, arg ≠ .ident unquoteName)
  (evaluates : ∀ param ∈ t.params, ∃ arg, t.trees args param = some arg ∧
    ev (.ident param) m = (.ok (.quote (.expr arg)), m))

include each evaluates

/-- In a tree of the template, rebuilt with filled places, only a place is marked. -/
theorem splice_fills {e : Expr} (visited : .expr e ∈ (Node.expr t.tree).visits) :
    Answers (Eval.Quiet m) (splice ev) (Rule.fill (t.trees args)) (.expr e) := by
  cases found : e.marked?.bind (t.trees args) with
  | some tree =>
      obtain ⟨param, isMarked, isTree⟩ := Option.bind_eq_some_iff.1 found
      obtain rfl := Expr.eq_call_of_marked isMarked
      obtain ⟨_, isParam, ⟨⟩⟩ := t.marks _ visited
      obtain ⟨arg, isArg, yields⟩ := evaluates param isParam
      obtain rfl : arg = tree := Option.some.inj (isArg.symm.trans isTree)
      rw [Answers, Node.rewrite, Expr.rewrite_fill_of_some found]
      exact Eval.bind_of_ok yields
  | none =>
      rw [Answers, Node.rewrite, Expr.rewrite_fill_of_none found]
      refine splice_of_unquoted_none ?_
      -- a call of the marking name in the rebuilt tree was one in the template, and hence a place, which is filled
      cases isCall : (Node.rebuild (Rule.fill (t.trees args)) (.expr e)).unquoted? with
      | none => rfl
      | some args' =>
          obtain ⟨callee, before, rfl, isMark, _⟩ :=
            Expr.eq_call_of_rebuild (Node.expr.inj (Node.eq_call_of_unquoted isCall))
          obtain rfl := Expr.eq_mark_of_rewrite_fill (Template.trees_ne_mark each) isMark
          obtain ⟨param, isParam, rfl⟩ := t.marks _ visited
          obtain ⟨arg, isArg, _⟩ := evaluates param isParam
          exact absurd (isArg.symm.trans found) (Option.some_ne_none arg)

theorem quotation_instantiates :
    quotation ev t.tree m = (.ok (.quote (.expr (t.instantiate args))), m) := by
  have fills : Eval.Quiet m Node ((Node.expr t.tree).transform (splice ev)) (.expr (t.instantiate args)) := by
    refine (Eval.certain_quiet m).rewrite (.expr t.tree) fun part visited => ?_
    cases part with
    | expr e => exact splice_fills each evaluates visited
    | _ => exact splice_of_unquoted_none rfl
  exact Eval.bind_of_ok fills

end Quoting

/-!
### The scope of a call
-/

namespace Store

variable {s : Store} {scope id : ScopeId}

/-- Names bound in a scope as variables, one after the other. -/
def bindAll (scope : ScopeId) : Store → List (String × Value) → Store :=
  List.foldl fun s pair => s.setOwn scope pair.1 ⟨pair.2, false⟩

theorem scopes_bindAll_of_ne (elsewhere : id ≠ scope) (pairs : List (String × Value)) :
    (s.bindAll scope pairs).scopes[id]? = s.scopes[id]? := by
  induction pairs generalizing s with
  | nil => rfl
  | cons pair rest inductionHypothesis => exact inductionHypothesis.trans (scopes_setOwn_of_ne elsewhere)

/-- A scope that binds distinct names holds them beside what it held. -/
theorem own?_bindAll (inside : scope < s.scopes.size) {pairs : List (String × Value)}
    (distinct : (Assoc.keys pairs).Nodup) (name : String) :
    (s.bindAll scope pairs).own? scope name =
      ((pairs.lookup name).map (⟨·, false⟩)).or (s.own? scope name) := by
  induction pairs generalizing s with
  | nil => rfl
  | cons pair rest inductionHypothesis =>
      obtain ⟨first, v⟩ := pair
      rw [Assoc.keys_cons, List.nodup_cons] at distinct
      obtain ⟨isNew, others⟩ := distinct
      have later := inductionHypothesis (s := s.setOwn scope first ⟨v, false⟩) (by rwa [size_setOwn]) others
      refine later.trans ?_
      rw [own?_setOwn, List.lookup_cons]
      by_cases isFirst : name = first
      · subst isFirst
        have absent : rest.lookup name = none :=
          Option.not_isSome_iff_eq_none.1 fun found => isNew (Assoc.mem_keys_iff.2 found)
        simp [absent, inside]
      · simp [isFirst, beq_false_of_ne isFirst]

end Store

theorem Eval.define_of_assignable {scope : ScopeId} {name : String} {m : Machine}
    (isAssignable : ∀ v, m.store.own? scope name ≠ some ⟨v, true⟩) (v : Value) :
    Eval.define scope name v m = (.ok (), { m with store := m.store.setOwn scope name ⟨v, false⟩ }) := by
  have place : m.store.placeToDefine scope name = .ok scope := by
    unfold Store.placeToDefine
    split
    · rename_i held constant
      exact absurd constant (isAssignable held)
    · rfl
  simp only [Eval.define, Eval.bindAt, place]

theorem Eval.defineAll_of_assignable {scope : ScopeId} (pairs : List (String × Value)) {m : Machine}
    (assignable : ∀ name v, m.store.own? scope name ≠ some ⟨v, true⟩) :
    Eval.defineAll scope pairs m = (.ok (), { m with store := m.store.bindAll scope pairs }) := by
  induction pairs generalizing m with
  | nil => rfl
  | cons pair rest inductionHypothesis =>
      obtain ⟨first, v⟩ := pair
      refine (Eval.bind_of_ok (Eval.define_of_assignable (assignable first) v)).trans (inductionHypothesis ?_)
      intro name held
      show (m.store.setOwn scope first ⟨v, false⟩).own? scope name ≠ _
      rw [Store.own?_setOwn]
      split
      · exact nofun
      · exact assignable name held

/-!
### Calls of templates
-/

/-- The machine has got more scopes, and nothing else has changed. -/
structure Machine.AddsScopes (m m' : Machine) : Prop where
  sink : m'.sink = m.sink
  identity : m'.nextIdentity = m.nextIdentity
  scopes : ∀ id < m.store.scopes.size, m'.store.scopes[id]? = m.store.scopes[id]?

namespace Machine.AddsScopes

variable {m m' m'' : Machine}

theorem refl (m : Machine) : m.AddsScopes m :=
  ⟨rfl, rfl, fun _ _ => rfl⟩

theorem trans (first : m.AddsScopes m') (second : m'.AddsScopes m'') : m.AddsScopes m'' where
  sink := second.sink.trans first.sink
  identity := second.identity.trans first.identity
  scopes id inside := by
    have same := first.scopes id inside
    rw [Array.getElem?_eq_getElem inside] at same
    have stillInside := (Array.getElem?_eq_some_iff.1 same).1
    exact (second.scopes id stillInside).trans (first.scopes id inside)

end Machine.AddsScopes

namespace Machine

variable {m : Machine} {parent : ScopeId} {pairs : List (String × Value)}

/-- The machine in which a body runs: a new scope binds the parameters. -/
def openScope (m : Machine) (parent : ScopeId) (pairs : List (String × Value)) : Machine :=
  { m with store := (m.store.newScope (some parent)).2.bindAll m.store.scopes.size pairs }

theorem addsScopes_openScope : m.AddsScopes (m.openScope parent pairs) where
  sink := rfl
  identity := rfl
  scopes id inside := by
    refine (Store.scopes_bindAll_of_ne (Nat.ne_of_lt inside) pairs).trans ?_
    simp [Store.newScope, Array.getElem?_push, Nat.ne_of_lt inside]

theorem get?_openScope (distinct : (Assoc.keys pairs).Nodup) {name : String} {v : Value}
    (found : pairs.lookup name = some v) :
    (m.openScope parent pairs).store.get? m.store.scopes.size name = some v := by
  have inside : m.store.scopes.size < (m.store.newScope (some parent)).2.scopes.size := by simp
  have own : (m.openScope parent pairs).store.own? m.store.scopes.size name = some ⟨v, false⟩ := by
    refine (Store.own?_bindAll inside distinct name).trans ?_
    rw [found, Option.map_some, Option.some_or]
  exact Store.get?_of_own? own

theorem run_openScope {α : Type} (next : ScopeId → Eval α) :
    (do
      let inner ← Eval.newScope (some parent)
      Eval.defineAll inner pairs
      next inner) m = next m.store.scopes.size (m.openScope parent pairs) := by
  let opened : Machine := { m with store := (m.store.newScope (some parent)).2 }
  have opens : Eval.newScope (some parent) m = (.ok m.store.scopes.size, opened) := rfl
  have binds : Eval.defineAll m.store.scopes.size pairs opened = (.ok (), m.openScope parent pairs) :=
    Eval.defineAll_of_assignable pairs fun name v => by rw [Store.own?_newest]; exact nofun
  exact (Eval.bind_of_ok opens).trans (Eval.bind_of_ok binds)

end Machine

section Calls

variable {t : Template} {args : List Expr} {m : Machine}

/-- Each parameter stands for one argument. -/
theorem Template.exists_tree (sameLength : args.length = t.params.length) {param : String} (isParam : param ∈ t.params) :
    ∃ arg, t.trees args param = some arg := by
  have isKey : param ∈ Assoc.keys (t.params.zip args) := by
    rwa [Assoc.keys, List.map_fst_zip (Nat.le_of_eq sameLength.symm)]
  exact Option.isSome_iff_exists.1 (Assoc.mem_keys_iff.1 isKey)

/-- Run on argument trees, the body of a template quotes its tree with the marked places filled. -/
theorem evalBlock_template (bound : Nat) {scope : ScopeId} (sameLength : args.length = t.params.length)
    (each : ∀ arg ∈ args, arg ≠ .ident unquoteName)
    (holds : ∀ param arg, t.trees args param = some arg → m.store.get? scope param = some (.quote (.expr arg))) :
    evalBlock (evalExpr (bound + 2)) scope t.body m = (.ok (.quote (.expr (t.instantiate args))), m) := by
  have evaluates : ∀ param ∈ t.params, ∃ arg, t.trees args param = some arg ∧
      evalExpr (bound + 1) (.ident param) scope m = (.ok (.quote (.expr arg)), m) := by
    intro param isParam
    obtain ⟨arg, isArg⟩ := Template.exists_tree sameLength isParam
    have found : Eval.lookup scope param m = (.ok (some (.quote (.expr arg))), m) := by
      rw [Eval.lookup, holds param arg isArg]
    exact ⟨arg, isArg, Eval.bind_of_ok found⟩
  have quotes : quotation (fun e => evalExpr (bound + 1) e scope) t.tree m = _ :=
    quotation_instantiates each evaluates
  exact quotes

theorem onBehalfOf_of_ok {α : Type} {p : Eval α} {a : α} {m' : Machine} (name : String) (yields : p m = (.ok a, m')) :
    onBehalfOf name p m = (.ok a, m') := by
  simp only [onBehalfOf, Eval.mapFault, yields]

/-- A call of a template yields its instance. The scope made for the call is the only change. -/
theorem expandCall_instantiates (bound : Nat) (name : String) {mac : Macro} (isParams : mac.params = t.params)
    (isBody : mac.body = t.body) (sameLength : args.length = t.params.length)
    (each : ∀ arg ∈ args, arg ≠ .ident unquoteName) (m : Machine) :
    ∃ m', expandCall (evalExpr (bound + 2)) name mac args m = (.ok (.expr (t.instantiate args)), m') ∧
      m.AddsScopes m' := by
  let pairs := t.params.zip (args.map fun e => Value.quote (.expr e))
  have distinct : (Assoc.keys pairs).Nodup := by
    rw [Assoc.keys, List.map_fst_zip (by simp [sameLength])]
    exact t.distinct
  have holds : ∀ param arg, t.trees args param = some arg →
      (m.openScope mac.scope pairs).store.get? m.store.scopes.size param = some (.quote (.expr arg)) := by
    intro param arg isArg
    refine Machine.get?_openScope distinct ?_
    rw [Assoc.lookup_zip_map]
    exact congrArg (Option.map _) isArg
  have ran : (do
      let inner ← Eval.newScope (some mac.scope)
      Eval.defineAll inner (mac.params.zip (args.map fun e => .quote (.expr e)))
      evalBlock (evalExpr (bound + 2)) inner mac.body : Eval Value) m =
        (.ok (.quote (.expr (t.instantiate args))), m.openScope mac.scope pairs) := by
    rw [isParams, isBody]
    exact (Machine.run_openScope _).trans (evalBlock_template bound sameLength each holds)
  refine ⟨m.openScope mac.scope pairs, ?_, Machine.addsScopes_openScope⟩
  rw [expandCall, if_pos (by rw [isParams, sameLength])]
  exact Eval.bind_of_ok (onBehalfOf_of_ok name ran)

end Calls

/-!
### Whole programs
-/

/-- From a machine that has only got more scopes than `start`, a computation yields a value and only adds scopes. -/
def Eval.Adding (start : Machine) (α : Type) (p : Eval α) (a : α) : Prop :=
  ∀ m, start.AddsScopes m → ∃ m', p m = (.ok a, m') ∧ start.AddsScopes m'

theorem Eval.certain_adding (start : Machine) : Certain (Eval.Adding start) where
  pure a m adds := ⟨m, rfl, adds⟩
  bind first second m adds := by
    obtain ⟨m₁, yields, adds₁⟩ := first m adds
    obtain ⟨m₂, yields', adds₂⟩ := second m₁ adds₁
    exact ⟨m₂, (Eval.bind_of_ok yields).trans yields', adds₂⟩

section Programs

variable {start : Machine} {macros : ScopeId} {templates : Templates} {p : Program}

/-- When a call is met, its arguments have been rewritten, and none of them is the marking name. -/
theorem Program.Suits.args_ne_mark (suits : p.Suits templates) {callee : Expr} {args : List Expr}
    (visited : .expr (.call callee args) ∈ p.visits) :
    ∀ arg ∈ args.map (Expr.rewrite templates.rule), arg ≠ .ident unquoteName := by
  intro arg member
  obtain ⟨before, isArg, rfl⟩ := List.mem_map.1 member
  refine before.rewrite_ne_mark fun marked => suits.unmarked ?_
  exact Node.visits_subset visited (Node.visits_subset (Expr.arg_mem_visits isArg) marked)

variable (nested : start.store.Nested) (inside : macros < start.store.scopes.size)

include nested inside

/-- What a scope of the machine sees stays the same when scopes are added. -/
theorem lookup_adding (name : String) :
    Eval.Adding start (Option Value) (Eval.lookup macros name) (start.store.get? macros name) := by
  intro m adds
  have outward : ∀ {id parent : ScopeId}, id < start.store.scopes.size → start.store.parent? id = some parent →
      parent < start.store.scopes.size :=
    fun isInside lies => Nat.lt_trans (nested _ _ lies) isInside
  have same : m.store.get? macros name = start.store.get? macros name :=
    Store.get?_unchanged outward adds.scopes inside name
  exact ⟨m, by rw [Eval.lookup, same], adds⟩

variable (holds : start.store.Holds macros templates) (bound : Nat)

include holds

/-- A call of a name gives way to the instance of the template of that name, or stays. -/
theorem expandNode_call {name : String} {args : List Expr}
    (sameLength : ∀ t, templates name = some t → args.length = t.params.length)
    (each : ∀ arg ∈ args, arg ≠ .ident unquoteName) (before : Expr) :
    Eval.Adding start Node (expandNode (evalExpr (bound + 2)) macros (.expr (.call (.ident name) args)))
      (.expr (templates.rule.put before (.call (.ident name) args))) := by
  have certain := Eval.certain_adding start
  refine certain.bind (lookup_adding nested inside name) ?_
  have known := holds name
  generalize start.store.get? macros name = seen at known
  split at known
  · obtain ⟨t, isTemplate, isParams, isBody⟩ := known
    intro m adds
    obtain ⟨m', yields, adds'⟩ :=
      expandCall_instantiates bound name isParams isBody (sameLength t isTemplate) each m
    simp only [Templates.rule, isTemplate]
    exact ⟨m', yields, adds.trans adds'⟩
  · simp only [Templates.rule, known]
    exact certain.pure _

variable (suits : p.Suits templates)

include suits

theorem expandNode_substitutes {e : Expr} (visited : .expr e ∈ p.visits) :
    Answers (Eval.Adding start) (expandNode (evalExpr (bound + 2)) macros) templates.rule (.expr e) := by
  have certain := Eval.certain_adding start
  rw [Answers, Node.rewrite, Node.rebuild, Expr.rewrite]
  cases rebuilt : e.rebuild templates.rule with
  | call callee' args' =>
      cases callee' with
      | ident name =>
          obtain ⟨callee, args, rfl, isName, rfl⟩ := Expr.eq_call_of_rebuild rebuilt
          refine expandNode_call nested inside holds bound ?_ (suits.args_ne_mark visited) _
          intro t isTemplate
          rw [List.length_map]
          exact suits.arities visited isName isTemplate
      | _ => exact certain.pure _
  | _ => exact certain.pure _

theorem expandMacros_adding :
    Eval.Adding start Program (expandMacros (bound + 2) macros p) (p.substitute templates) := by
  refine (Eval.certain_adding start).rewrite_program p fun part visited => ?_
  cases part with
  | expr e => exact expandNode_substitutes nested inside holds bound suits visited
  | _ => exact (Eval.certain_adding start).pure _

end Programs

/-!
### Main result
-/

/-- The template that is nothing but a place: `quote(unquote(param))`. -/
def Template.place (param : String) : Template where
  params := [param]
  tree := .call (.ident unquoteName) [.ident param]
  distinct := by simp
  marks args visited := by
    have isPlace : args = [.ident param] := by
      simpa [Node.visits, Node.parts, Expr.parts, exprParts] using visited
    exact ⟨param, List.mem_cons_self, isPlace⟩
  unmarked := nofun

theorem Template.instantiate_place (param : String) (arg : Expr) : (place param).instantiate [arg] = arg := by
  refine Expr.rewrite_fill_of_some ?_
  simp [place, Expr.marked?, trees]

/-- Expanding a program in which macros are templates yields the program with every call of a template replaced by the
    filled template, from the leaves up; it prints nothing, and every scope of the machine is as it was. A template
    that is nothing but a place is transparent around every expression. -/
theorem expandMacros_substitutes {m : Machine} (built : m.Built) {macros : ScopeId}
    (inside : macros < m.store.scopes.size) {templates : Templates} (holds : m.store.Holds macros templates)
    {p : Program} (suits : p.Suits templates) (bound : Nat) :
    (∃ m', expandMacros (bound + 2) macros p m = (.ok (p.substitute templates), m') ∧ m.AddsScopes m') ∧
      ∀ name param, templates name = some (.place param) → ∀ e : Expr,
        (Expr.call (.ident name) [e]).rewrite templates.rule = e.rewrite templates.rule := by
  refine ⟨expandMacros_adding built.coherent.nested inside holds bound suits m (.refl m), ?_⟩
  intro name param isPlace e
  have called : (Expr.call (.ident name) [e]).rewrite templates.rule =
      (Template.place param).instantiate [e.rewrite templates.rule] := by
    show (match templates name with | some t => _ | none => _) = _
    rw [isPlace]
    rfl
  rw [called, Template.instantiate_place]

/-- The template `quote([unquote(second), unquote(first), unquote(second)])` of two parameters. -/
def Template.around (first second : String) (different : first ≠ second) : Template where
  params := [first, second]
  tree := .array [.call (.ident unquoteName) [.ident second], .call (.ident unquoteName) [.ident first],
    .call (.ident unquoteName) [.ident second]]
  distinct := by simp [different]
  marks args visited := by
    have isPlace : args = [.ident second] ∨ args = [.ident first] ∨ args = [.ident second] := by
      simpa [Node.visits, Node.parts, Expr.parts, exprParts] using visited
    rcases isPlace with rfl | rfl | rfl
    · exact ⟨second, by simp, rfl⟩
    · exact ⟨first, by simp, rfl⟩
    · exact ⟨second, by simp, rfl⟩
  unmarked := nofun

/-- A table of two templates. -/
def placeAndAround : Templates := fun name =>
  if name = "id" then some (.place "x")
  else if name = "around" then some (.around "a" "b" (by decide))
  else none

/-- A machine whose only scope binds the two templates as macros. -/
def placeAndAroundMachine : Machine :=
  (defineMacros 0 [.bind "id" (.macroLiteral ["x"] (Template.place "x").body),
    .bind "around" (.macroLiteral ["a", "b"] (Template.around "a" "b" (by decide)).body)]
    { Machine.start .unlimited with store := (Store.empty.newScope none).2 }).2

theorem placeAndAroundMachine_built : placeAndAroundMachine.Built := by
  have withScope : (Machine.start .unlimited).Leads
      { Machine.start .unlimited with store := (Store.empty.newScope none).2 } :=
    .step (.refl _) (.newScope none (by simp))
  exact ⟨.unlimited, .step withScope (.defineMacros 0 _ (by decide))⟩

theorem placeAndAroundMachine_holds : placeAndAroundMachine.store.Holds 0 placeAndAround := by
  intro name
  by_cases isPlace : name = "id"
  · subst isPlace
    exact ⟨.place "x", rfl, rfl, rfl⟩
  by_cases isAround : name = "around"
  · subst isAround
    exact ⟨.around "a" "b" (by decide), rfl, rfl, rfl⟩
  have scopes : placeAndAroundMachine.store.scopes = #[⟨none,
      [("id", ⟨.macroValue ⟨["x"], (Template.place "x").body, 0, 0⟩, false⟩),
        ("around", ⟨.macroValue ⟨["a", "b"], (Template.around "a" "b" (by decide)).body, 0, 1⟩, false⟩)]⟩] := rfl
  have absent : placeAndAroundMachine.store.get? 0 name = none := by
    simp [Store.get?, Store.find?, Store.findWithin, Store.own?, Store.parent?, scopes, List.lookup_cons,
      beq_false_of_ne isPlace, beq_false_of_ne isAround]
  rw [absent]
  simp [placeAndAround, isPlace, isAround]

/-- In `let r = around(id(1), around(x, 2));` the arguments of the outer call have been replaced when it is met, and the
    second one comes twice. -/
theorem expandMacros_substitutes_nested_calls :
    let call := fun name args => Expr.call (.ident name) args
    let p : Program := ⟨[.bind "r" (call "around" [call "id" [.integer 1], call "around" [.ident "x", .integer 2]])]⟩
    let inner : Expr := .array [.integer 2, .ident "x", .integer 2]
    p.Suits placeAndAround ∧ ∃ m', expandMacros 2 0 p placeAndAroundMachine =
      (.ok ⟨[.bind "r" (.array [inner, .integer 1, inner])]⟩, m') ∧ placeAndAroundMachine.AddsScopes m' := by
  intro call p inner
  have unmarked : .expr (.ident unquoteName) ∉ p.visits := by
    simp [p, call, Program.visits, Node.visits, Node.parts, blockParts, Stmt.parts, Expr.parts, exprParts, unquoteName]
  have calls : ∀ {callee args}, .expr (.call callee args) ∈ p.visits →
      callee = .ident "id" ∧ args = [.integer 1] ∨ callee = .ident "around" ∧ args = [.ident "x", .integer 2] ∨
        callee = .ident "around" ∧ args = [call "id" [.integer 1], call "around" [.ident "x", .integer 2]] := by
    intro callee args visited
    simpa [p, call, Program.visits, Node.visits, Node.parts, blockParts, Stmt.parts, Expr.parts, exprParts]
      using visited
  have suits : p.Suits placeAndAround := by
    refine ⟨unmarked, fun visited isName isTemplate => ?_⟩
    rcases calls visited with ⟨rfl, rfl⟩ | ⟨rfl, rfl⟩ | ⟨rfl, rfl⟩ <;> cases isName <;> cases isTemplate <;> rfl
  exact ⟨suits, (expandMacros_substitutes placeAndAroundMachine_built (by decide) placeAndAroundMachine_holds suits 0).1⟩

/-- That every call of the name of a template has the right number of arguments is not enough: in `id(id)(1, 2);` there
    is one such call, which has, but it gives way to a name that is then called with two arguments, and refused. -/
theorem expandMacros_refuses_rebuilt_call :
    let p : Program := ⟨[.expr (.call (.call (.ident "id") [.ident "id"]) [.integer 1, .integer 2])]⟩
    placeAndAroundMachine.Built ∧ placeAndAroundMachine.store.Holds 0 placeAndAround ∧
      .expr (.ident unquoteName) ∉ p.visits ∧
      (∀ name args t, .expr (.call (.ident name) args) ∈ p.visits → placeAndAround name = some t →
        args.length = t.params.length) ∧
      p.substitute placeAndAround = ⟨[.expr (.integer 1)]⟩ ∧
      ∀ bound, (expandMacros (bound + 2) 0 p placeAndAroundMachine).1 = .error (.misuse (.arity "id" 1 2)) := by
  intro p
  have calls : ∀ {name args}, .expr (.call (.ident name) args) ∈ p.visits → name = "id" ∧ args = [.ident "id"] := by
    intro name args visited
    simpa [p, Program.visits, Node.visits, Node.parts, blockParts, Stmt.parts, Expr.parts, exprParts] using visited
  refine ⟨placeAndAroundMachine_built, placeAndAroundMachine_holds, ?_, ?_, rfl, fun bound => rfl⟩
  · simp [p, Program.visits, Node.visits, Node.parts, blockParts, Stmt.parts, Expr.parts, exprParts, unquoteName]
  · intro name args t visited isTemplate
    obtain ⟨rfl, rfl⟩ := calls visited
    cases isTemplate
    rfl

end Quill
