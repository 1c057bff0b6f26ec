/-
Module: Quill.Value
Layer: Values
Purpose: The values that programs compute. Functions and macros close over the scope in which they were
  made, and each has an identity of its own. Two kinds of value are not meant to be stored: an error,
  which is how a failed program is reported, and a pending return, which travels outward until a call or
  the program takes its content.
Main exports: Key, Builtin, Closure, Macro, Value, Value.kind, Value.truthy, Value.key?, Value.content
-/
import Quill.Fault

namespace Quill

/-- The number of a scope in its store. -/
abbrev ScopeId := Nat

/-- What the keys of hashes are told apart by. -/
inductive Key where
  | integer (n : Int64)
  | boolean (b : Bool)
  | text (s : String)
deriving DecidableEq

/-- The functions that exist without being defined. -/
inductive Builtin where
  | len
  | first
  | last
  | rest
  | push
  | puts
  | keys
  | typeOf
deriving DecidableEq

namespace Builtin

/-- The name of a builtin. -/
def name : Builtin → String
  | len => "len"
  | first => "first"
  | last => "last"
  | rest => "rest"
  | push => "push"
  | puts => "puts"
  | keys => "keys"
  | typeOf => "type"

/-- Every builtin. -/
def all : List Builtin :=
  [len, first, last, rest, push, puts, keys, typeOf]

/-- The builtin of a given name. -/
def ofName? (name : String) : Option Builtin :=
  all.find? (fun b => b.name == name)

end Builtin

/-- A function of the program: its parameters and body, the scope it was made in, and an identity that
    no other function or macro has. -/
structure Closure where
  name : Option String
  params : List String
  body : Block
  scope : ScopeId
  identity : Nat

/-- A macro: like a function, but from trees to a tree. -/
structure Macro where
  params : List String
  body : Block
  scope : ScopeId
  identity : Nat

/-- Values. For each key, a hash keeps the value that was given as the key, and then the value for it. -/
inductive Value where
  | null
  | integer (n : Int64)
  | float (x : Float)
  | boolean (b : Bool)
  | text (s : String)
  | array (items : List Value)
  | hash (entries : List (Key × Value × Value))
  | function (c : Closure)
  | builtin (b : Builtin)
  | error (fault : Fault)
  | returned (v : Value)
  | quote (n : Node)
  | macroValue (m : Macro)

/-- A key as a value. -/
def Key.toValue : Key → Value
  | integer n => .integer n
  | boolean b => .boolean b
  | text s => .text s

/-- How a function without a name is called in messages. -/
def Closure.calledName (c : Closure) : String :=
  c.name.getD "anonymous function"

namespace Value

/-- The type of a value. -/
def kind : Value → ValueKind
  | null => .null
  | integer _ => .integer
  | float _ => .float
  | boolean _ => .boolean
  | text _ => .text
  | array _ => .array
  | hash _ => .hash
  | function _ => .function
  | builtin _ => .builtin
  | error _ => .error
  | returned _ => .returned
  | quote _ => .quote
  | macroValue _ => .macroValue

/-- Null and false do not count as true; everything else does. -/
def truthy : Value → Bool
  | null => false
  | boolean b => b
  | _ => true

/-- The key that a value is, if it can be one. -/
def key? : Value → Option Key
  | integer n => some (.integer n)
  | boolean b => some (.boolean b)
  | text s => some (.text s)
  | _ => none

/-- The content of a pending return, and any other value itself. -/
def content : Value → Value
  | returned v => v
  | v => v

/-- Whether a value is null. -/
def isNull : Value → Bool
  | null => true
  | _ => false

end Value

end Quill
