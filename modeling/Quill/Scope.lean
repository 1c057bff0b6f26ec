/-
Module: Quill.Scope
Layer: Running
Purpose: Scopes and the store that holds them. A scope binds names to values, some of them for good, and
  may lie inside another scope. Scopes are shared by number: every closure made in a scope sees later
  assignments in it. A scope is always newer than the one it lies in, so looking outward ends.
Main exports: Binding, Scope, Store, Store.get?, Store.define, Store.assign, Store.names, Store.describe
-/
import Quill.Value
import Quill.Assoc
import Quill.Text

namespace Quill

/-- What a name stands for. -/
structure Binding where
  value : Value
  constant : Bool

/-- The names of one scope and the scope around it. -/
structure Scope where
  parent : Option ScopeId
  bindings : List (String × Binding)

/-- All scopes made so far; the number of a scope is its place. -/
structure Store where
  scopes : Array Scope

namespace Store

/-- The store without scopes. -/
def empty : Store :=
  ⟨#[]⟩

/-- Makes a scope without names, inside `parent` if one is given. -/
def newScope (s : Store) (parent : Option ScopeId) : ScopeId × Store :=
  (s.scopes.size, ⟨s.scopes.push ⟨parent, []⟩⟩)

/-- What a scope itself binds a name to. -/
def own? (s : Store) (id : ScopeId) (name : String) : Option Binding :=
  match s.scopes[id]? with
  | some scope => scope.bindings.lookup name
  | none => none

/-- The scope around a scope. -/
def parent? (s : Store) (id : ScopeId) : Option ScopeId :=
  match s.scopes[id]? with
  | some scope => scope.parent
  | none => none

/-- Looks a name up in a scope and, as far as `steps` reach, in the scopes around it: the nearest scope
    that binds it, and how. -/
def findWithin (s : Store) (name : String) : (steps : Nat) → ScopeId → Option (ScopeId × Binding)
  | 0, _ => none
  | steps + 1, id =>
    match s.own? id name with
    | some binding => some (id, binding)
    | none =>
      match s.parent? id with
      | some parent => findWithin s name steps parent
      | none => none

/-- The nearest scope that binds a name, and how. Each scope outward has a smaller number, so the
    number of a scope bounds the steps. -/
def find? (s : Store) (id : ScopeId) (name : String) : Option (ScopeId × Binding) :=
  s.findWithin name (id + 1) id

/-- The value of a name as seen from a scope. -/
def get? (s : Store) (id : ScopeId) (name : String) : Option Value :=
  (s.find? id name).map (fun found => found.2.value)

/-- Sets a binding of a scope. -/
def setOwn (s : Store) (id : ScopeId) (name : String) (binding : Binding) : Store :=
  ⟨s.scopes.modify id (fun scope => { scope with bindings := Assoc.set name binding scope.bindings })⟩

/-- The scope in which defining a name binds it: the given one, whatever the scopes around it bind.
    A constant of that very scope cannot be bound again. -/
def placeToDefine (s : Store) (id : ScopeId) (name : String) : Except Fault ScopeId :=
  match s.own? id name with
  | some ⟨_, true⟩ => .error (.constant name)
  | _ => .ok id

/-- The scope in which assigning a name changes it: the nearest one that binds it. -/
def placeToAssign (s : Store) (id : ScopeId) (name : String) : Except Fault ScopeId :=
  match s.find? id name with
  | none => .error (.unbound name)
  | some (_, ⟨_, true⟩) => .error (.constant name)
  | some (owner, ⟨_, false⟩) => .ok owner

/-- Binds a name in a scope, to a variable or for good. -/
def define (s : Store) (id : ScopeId) (name : String) (binding : Binding) : Except Fault Store :=
  (s.placeToDefine id name).map (fun owner => s.setOwn owner name binding)

/-- Gives a new value to a name in the nearest scope that binds it. -/
def assign (s : Store) (id : ScopeId) (name : String) (value : Value) : Except Fault Store :=
  (s.placeToAssign id name).map (fun owner => s.setOwn owner name ⟨value, false⟩)

/-- Puts a name at its place in a sorted list of names. -/
def insertSorted (name : String) : List String → List String
  | [] => [name]
  | other :: rest => if name < other then name :: other :: rest else other :: insertSorted name rest

/-- The names that a scope itself binds, sorted by their characters. -/
def names (s : Store) (id : ScopeId) : List String :=
  match s.scopes[id]? with
  | some scope => (Assoc.keys scope.bindings).foldr insertSorted []
  | none => []

/-- A scope and those around it, as far as `steps` reach, by their names. -/
def describeWithin (s : Store) : (steps : Nat) → ScopeId → String
  | 0, _ => ""
  | steps + 1, id =>
    let outer :=
      match s.parent? id with
      | some parent => "Some(" ++ describeWithin s steps parent ++ ")"
      | none => "None"
    "Env \x7b names: [" ++ ", ".intercalate ((s.names id).map Text.quoted) ++
      "], parent: " ++ outer ++ " \x7d"

/-- A scope and those around it, by their names. -/
def describe (s : Store) (id : ScopeId) : String :=
  s.describeWithin (id + 1) id

end Store

end Quill
